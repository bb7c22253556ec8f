import Mathlib
import LineBasic.Proofs.Characters
import LineBasic.Token.Lexer

/-!
# Numbers as they are written

A `Writing` is the grammar of a number: digits, perhaps a point, digits, perhaps an exponent,
perhaps a mark. The reader takes the longest writing it finds, so a writing is read back from any
text that does not extend it.

* `numberText?_chars`: a writing is read back from in front of a text that does not extend it.
* `exists_writing`: whatever is read as a number is a writing in front of a text that does not
  extend it.
* `Writing.capital`: the writing in capitals, which spells the same number.
-/

namespace LineBasic.Lexer

open Floating (Exponent isExponentLetter isSign mantissa? exponent?)

/-- A number as it is written. -/
structure Writing where
  whole : List Char
  point : Bool
  fraction : List Char
  exponent : Option Exponent
  mark : Option Char

namespace Writing

/-- The characters of an exponent. -/
def exponentChars : Option Exponent → List Char
  | some e => e.letter :: (e.sign.toList ++ e.digits)
  | none => []

/-- What stands behind the digits and the point. -/
def ending (w : Writing) : List Char := exponentChars w.exponent ++ w.mark.toList

/-- The characters of a number. -/
def chars (w : Writing) : List Char :=
  w.whole ++ ((if w.point then ['.'] else []) ++ (w.fraction ++ w.ending))

/-- An exponent with a letter, a sign and digits of the right kinds. -/
structure FormedExponent (e : Exponent) : Prop where
  letter : isExponentLetter e.letter = true
  sign : ∀ s ∈ e.sign, isSign s = true
  digits : ∀ c ∈ e.digits, Text.isDigit c = true

/-- The parts are of the right kinds, and there is a digit. -/
structure Formed (w : Writing) : Prop where
  whole : ∀ c ∈ w.whole, Text.isDigit c = true
  fraction : ∀ c ∈ w.fraction, Text.isDigit c = true
  point : w.point = false → w.fraction = []
  digit : w.whole ≠ [] ∨ w.fraction ≠ []
  exponent : ∀ e ∈ w.exponent, FormedExponent e
  mark : ∀ c ∈ w.mark, isPrecisionMark c = true

/-- A character that would be read as part of the number if it stood right behind it. -/
def extends? (w : Writing) (c : Char) : Bool :=
  w.mark.isNone && (isPrecisionMark c || Text.isDigit c ||
    match w.exponent with
    | some e => e.sign.isNone && e.digits.isEmpty && isSign c
    | none => isExponentLetter c || (!w.point && c = '.'))

/-- What the reader makes of the number in front of a text. -/
def read (w : Writing) (rest : List Char) : NumberText :=
  ⟨⟨w.whole, w.fraction, w.ending ++ rest⟩, w.exponent, w.mark, rest⟩

end Writing

/-! ## Kinds of characters -/

theorem not_isDigit_point : Text.isDigit '.' = false := by decide

theorem not_isDigit_of_isExponentLetter {c : Char} (h : isExponentLetter c = true) :
    Text.isDigit c = false := by
  simp only [isExponentLetter, Bool.or_eq_true, decide_eq_true_eq] at h
  rcases h with ((rfl | rfl) | rfl) | rfl <;> decide

theorem not_isDigit_of_isSign {c : Char} (h : isSign c = true) : Text.isDigit c = false := by
  simp only [isSign, Bool.or_eq_true, decide_eq_true_eq] at h
  rcases h with rfl | rfl <;> decide

theorem not_isDigit_of_isPrecisionMark {c : Char} (h : isPrecisionMark c = true) :
    Text.isDigit c = false := by
  simp only [isPrecisionMark, Bool.or_eq_true, decide_eq_true_eq] at h
  rcases h with (rfl | rfl) | rfl <;> decide

theorem not_isSign_of_isPrecisionMark {c : Char} (h : isPrecisionMark c = true) :
    isSign c = false := by
  simp only [isPrecisionMark, Bool.or_eq_true, decide_eq_true_eq] at h
  rcases h with (rfl | rfl) | rfl <;> decide

theorem not_isExponentLetter_of_isPrecisionMark {c : Char} (h : isPrecisionMark c = true) :
    isExponentLetter c = false := by
  simp only [isPrecisionMark, Bool.or_eq_true, decide_eq_true_eq] at h
  rcases h with (rfl | rfl) | rfl <;> decide

theorem not_isSign_of_isDigit {c : Char} (h : Text.isDigit c = true) : isSign c = false := by
  cases hs : isSign c with
  | false => rfl
  | true => rw [not_isDigit_of_isSign hs] at h; exact absurd h Bool.false_ne_true

/-! ## Reading a writing back -/

variable {w : Writing} {rest : List Char}

theorem mantissa?_run {whole fraction tail : List Char} {point : Bool}
    (hw : ∀ c ∈ whole, Text.isDigit c = true) (hf : ∀ c ∈ fraction, Text.isDigit c = true)
    (hp : point = false → fraction = []) (hd : whole ≠ [] ∨ fraction ≠ [])
    (ht : ∀ c ∈ tail.head?, Text.isDigit c = false ∧ (point = false → c ≠ '.')) :
    mantissa? (whole ++ ((if point then ['.'] else []) ++ (fraction ++ tail))) =
      some ⟨whole, fraction, tail⟩ := by
  unfold mantissa?
  cases point with
  | true =>
    have hstop : ∀ c ∈ ('.' :: (fraction ++ tail)).head?, Text.isDigit c = false := by
      intro c hc
      obtain rfl : '.' = c := by simpa using hc
      exact not_isDigit_point
    have htail : ∀ c ∈ tail.head?, Text.isDigit c = false := fun c hc => (ht c hc).1
    simp only [if_true, List.singleton_append]
    rw [Text.takeWhile_run hw hstop, Text.dropWhile_run hw hstop]
    simp only [Text.takeWhile_run hf htail, Text.dropWhile_run hf htail]
    rw [if_neg]
    rcases hd with h | h <;> simp [h]
  | false =>
    obtain rfl := hp rfl
    have hstop : ∀ c ∈ tail.head?, Text.isDigit c = false := fun c hc => (ht c hc).1
    have hne : whole ≠ [] := by simpa using hd
    simp only [Bool.false_eq_true, if_false, List.nil_append]
    rw [Text.takeWhile_run hw hstop, Text.dropWhile_run hw hstop]
    split
    · exact absurd rfl ((ht '.' (by simp)).2 rfl)
    · simp [hne]

theorem exponent?_run {e : Exponent} {tail : List Char} (h : Writing.FormedExponent e)
    (ht : ∀ c ∈ tail.head?, Text.isDigit c = false ∧
      (e.sign = none → e.digits = [] → isSign c = false)) :
    exponent? (Writing.exponentChars (some e) ++ tail) = some (e, tail) := by
  obtain ⟨letter, sign, digits⟩ := e
  have hstop : ∀ c ∈ tail.head?, Text.isDigit c = false := fun c hc => (ht c hc).1
  have hdig : ∀ c ∈ digits, Text.isDigit c = true := h.digits
  have hl : isExponentLetter letter = true := h.letter
  unfold exponent?
  simp only [Writing.exponentChars, List.cons_append, hl, if_true]
  cases sign with
  | some s =>
    have hs : isSign s = true := h.sign s rfl
    simp only [Option.toList_some, List.cons_append, List.nil_append, hs, if_true]
    rw [Text.takeWhile_run hdig hstop, Text.dropWhile_run hdig hstop]
  | none =>
    simp only [Option.toList_none, List.nil_append]
    have hsign : ∀ c ∈ (digits ++ tail).head?, isSign c = false := by
      cases digits with
      | nil => exact fun c hc => (ht c hc).2 rfl rfl
      | cons d ds =>
        intro c hc
        obtain rfl : d = c := by simpa using hc
        exact not_isSign_of_isDigit (hdig d List.mem_cons_self)
    have htake := Text.takeWhile_run hdig hstop
    have hdrop := Text.dropWhile_run hdig hstop
    cases hall : digits ++ tail with
    | nil =>
      obtain ⟨rfl, rfl⟩ := List.append_eq_nil_iff.mp hall
      rfl
    | cons c r =>
      rw [hall] at hsign htake hdrop
      simp only [hsign c rfl, Bool.false_eq_true, if_false, htake, hdrop]

theorem exponent?_none {tail : List Char} (h : ∀ c ∈ tail.head?, isExponentLetter c = false) :
    exponent? tail = none := by
  cases tail with
  | nil => rfl
  | cons c r => simp [exponent?, h c rfl]

/-- What may stand behind the digits of a writing, so that they end there. -/
theorem ending_stop (h : w.Formed) (hr : ∀ c ∈ rest.head?, w.extends? c = false) :
    ∀ c ∈ (w.ending ++ rest).head?, Text.isDigit c = false ∧ (w.point = false → c ≠ '.') := by
  intro c hc
  unfold Writing.ending at hc
  cases he : w.exponent with
  | some e =>
    rw [he] at hc
    obtain rfl : e.letter = c := by simpa [Writing.exponentChars] using hc
    have hl := (h.exponent e he).letter
    refine ⟨not_isDigit_of_isExponentLetter hl, fun _ hp => ?_⟩
    rw [hp] at hl
    exact absurd hl (by decide)
  | none =>
    rw [he] at hc
    cases hm : w.mark with
    | some m =>
      rw [hm] at hc
      obtain rfl : m = c := by simpa [Writing.exponentChars] using hc
      have hp := h.mark m hm
      refine ⟨not_isDigit_of_isPrecisionMark hp, fun _ hq => ?_⟩
      rw [hq] at hp
      exact absurd hp (by decide)
    | none =>
      have hx := hr c (by simpa [Writing.exponentChars, hm] using hc)
      simp only [Writing.extends?, he, hm, Option.isNone_none, Bool.true_and, Bool.or_eq_false_iff,
        Bool.and_eq_false_imp, Bool.not_eq_true', decide_eq_false_iff_not] at hx
      exact ⟨hx.1.2, hx.2.2⟩

/-- What may stand behind the exponent of a writing, so that it ends there. -/
theorem mark_stop {e : Exponent} (h : w.Formed) (he : w.exponent = some e)
    (hr : ∀ c ∈ rest.head?, w.extends? c = false) :
    ∀ c ∈ (w.mark.toList ++ rest).head?,
      Text.isDigit c = false ∧ (e.sign = none → e.digits = [] → isSign c = false) := by
  intro c hc
  cases hm : w.mark with
  | some m =>
    rw [hm] at hc
    obtain rfl : m = c := by simpa using hc
    have hp := h.mark m hm
    exact ⟨not_isDigit_of_isPrecisionMark hp, fun _ _ => not_isSign_of_isPrecisionMark hp⟩
  | none =>
    have hx := hr c (by simpa [hm] using hc)
    simp only [Writing.extends?, he, hm, Option.isNone_none, Bool.true_and, Bool.or_eq_false_iff,
      Bool.and_eq_false_imp, Bool.and_eq_true, Option.isNone_iff_eq_none, List.isEmpty_iff,
      and_imp] at hx
    exact ⟨hx.1.2, hx.2⟩

/-- The mark, and the text behind the number. -/
theorem mark_read (h : w.Formed) (hr : ∀ c ∈ rest.head?, w.extends? c = false)
    {m : Floating.Mantissa} {e : Option Exponent} :
    (match w.mark.toList ++ rest with
      | c :: r =>
        if isPrecisionMark c then ⟨m, e, some c, r⟩ else ⟨m, e, none, w.mark.toList ++ rest⟩
      | [] => ⟨m, e, none, []⟩ : NumberText) = ⟨m, e, w.mark, rest⟩ := by
  cases hm : w.mark with
  | some c => simp [h.mark c hm]
  | none =>
    cases rest with
    | nil => rfl
    | cons c r =>
      have hx := hr c rfl
      simp only [Writing.extends?, hm, Option.isNone_none, Bool.true_and, Bool.or_eq_false_iff]
        at hx
      simp [hx.1.1]

/-- **A writing is read back** from in front of a text that does not extend it. -/
theorem numberText?_chars (h : w.Formed) (hr : ∀ c ∈ rest.head?, w.extends? c = false) :
    numberText? (w.chars ++ rest) = some (w.read rest) := by
  have hm : mantissa? (w.chars ++ rest) = some ⟨w.whole, w.fraction, w.ending ++ rest⟩ := by
    have := mantissa?_run h.whole h.fraction h.point h.digit (ending_stop h hr)
    simpa only [Writing.chars, List.append_assoc] using this
  unfold numberText? Writing.read
  rw [hm]
  simp only [Option.map_some]
  cases he : w.exponent with
  | some e =>
    have hx : exponent? (w.ending ++ rest) = some (e, w.mark.toList ++ rest) := by
      have := exponent?_run (h.exponent e he) (mark_stop h he hr)
      rw [← List.append_assoc] at this
      simpa only [Writing.ending, he] using this
    simp only [hx]
    exact congrArg some (mark_read h hr)
  | none =>
    have hend : w.ending = w.mark.toList := by simp [Writing.ending, he, Writing.exponentChars]
    have hx : exponent? (w.ending ++ rest) = none := by
      apply exponent?_none
      intro c hc
      rw [hend] at hc
      cases hk : w.mark with
      | some m =>
        rw [hk] at hc
        obtain rfl : m = c := by simpa using hc
        exact not_isExponentLetter_of_isPrecisionMark (h.mark m hk)
      | none =>
        have hx := hr c (by simpa [hk] using hc)
        simp only [Writing.extends?, he, hk, Option.isNone_none, Bool.true_and,
          Bool.or_eq_false_iff] at hx
        exact hx.2.1
    simp only [hx]
    rw [hend]
    exact congrArg some (mark_read h hr)

/-! ## Whatever is read is a writing -/

theorem of_mantissa? {cs : List Char} {m : Floating.Mantissa} (h : mantissa? cs = some m) :
    ∃ point : Bool, cs = m.whole ++ ((if point then ['.'] else []) ++ (m.fraction ++ m.rest)) ∧
      (∀ c ∈ m.whole, Text.isDigit c = true) ∧ (∀ c ∈ m.fraction, Text.isDigit c = true) ∧
      (point = false → m.fraction = []) ∧ (m.whole ≠ [] ∨ m.fraction ≠ []) ∧
      ∀ c ∈ m.rest.head?, Text.isDigit c = false ∧ (point = false → c ≠ '.') := by
  have hcs := List.takeWhile_append_dropWhile (p := Text.isDigit) (l := cs)
  unfold mantissa? at h
  simp only at h
  split at h
  · rename_i r hr
    split at h
    · exact absurd h (by simp)
    · rename_i hne
      obtain rfl := Option.some.inj h
      refine ⟨true, ?_, fun c => List.mem_takeWhile_imp, fun c =>
        List.mem_takeWhile_imp, by simp, ?_, ?_⟩
      · rw [hr] at hcs
        simpa using hcs.symm
      · simp only [Bool.and_eq_true, List.isEmpty_iff, not_and_or] at hne
        exact hne
      · exact fun c hc => ⟨Text.head?_dropWhile hc, by simp⟩
  · rename_i hnot
    split at h
    · exact absurd h (by simp)
    · rename_i hne
      obtain rfl := Option.some.inj h
      refine ⟨false, by simp, fun c => List.mem_takeWhile_imp, by simp, fun _ => rfl, ?_, ?_⟩
      · left
        simpa using hne
      · intro c hc
        refine ⟨Text.head?_dropWhile hc, fun _ hp => ?_⟩
        obtain ⟨r, hr⟩ := List.head?_eq_some_iff.mp hc
        exact hnot r (hp ▸ hr)

theorem of_exponent? {cs rest : List Char} {e : Exponent} (h : exponent? cs = some (e, rest)) :
    cs = Writing.exponentChars (some e) ++ rest ∧ Writing.FormedExponent e ∧
      ∀ c ∈ rest.head?, Text.isDigit c = false ∧
        (e.sign = none → e.digits = [] → isSign c = false) := by
  cases cs with
  | nil => exact absurd h (by simp [exponent?])
  | cons l cs =>
    unfold exponent? at h
    simp only at h
    split at h
    · rename_i hl
      cases cs with
      | nil =>
        obtain ⟨rfl, rfl⟩ := Prod.mk.inj (Option.some.inj h)
        exact ⟨rfl, ⟨hl, by simp, by simp⟩, by simp⟩
      | cons s r =>
        simp only at h
        split at h
        · rename_i hs
          obtain ⟨rfl, rfl⟩ := Prod.mk.inj (Option.some.inj h)
          refine ⟨?_, ⟨hl, by simpa using hs, fun c => List.mem_takeWhile_imp⟩, ?_⟩
          · simp [Writing.exponentChars]
          · exact fun c hc => ⟨Text.head?_dropWhile hc, by simp⟩
        · rename_i hs
          obtain ⟨rfl, rfl⟩ := Prod.mk.inj (Option.some.inj h)
          refine ⟨?_, ⟨hl, by simp, fun c => List.mem_takeWhile_imp⟩, ?_⟩
          · simp [Writing.exponentChars]
          · refine fun c hc => ⟨Text.head?_dropWhile hc, fun _ hd => ?_⟩
            have hdrop : (s :: r).dropWhile Text.isDigit = s :: r := by
              have := List.takeWhile_append_dropWhile (p := Text.isDigit) (l := s :: r)
              rwa [show (s :: r).takeWhile Text.isDigit = [] from hd, List.nil_append] at this
            rw [hdrop] at hc
            obtain rfl : s = c := by simpa using hc
            simpa using hs
    · exact absurd h (by simp)

theorem not_isExponentLetter_of_exponent? {cs : List Char} (h : exponent? cs = none) :
    ∀ c ∈ cs.head?, isExponentLetter c = false := by
  intro c hc
  obtain ⟨r, rfl⟩ := List.head?_eq_some_iff.mp hc
  cases hl : isExponentLetter c with
  | false => rfl
  | true =>
    exfalso
    unfold exponent? at h
    simp only [hl, if_true] at h
    split at h
    · split at h <;> simp at h
    · simp at h

/-- The mark and the text behind a number, as they are read. -/
theorem of_mark_read {cs : List Char} {m : Floating.Mantissa} {e : Option Exponent} {n : NumberText}
    (h : (match cs with
      | c :: r => if isPrecisionMark c then ⟨m, e, some c, r⟩ else ⟨m, e, none, cs⟩
      | [] => ⟨m, e, none, []⟩ : NumberText) = n) :
    n.mantissa = m ∧ n.exponent = e ∧ cs = n.mark.toList ++ n.rest ∧
      (∀ c ∈ n.mark, isPrecisionMark c = true) ∧
      (n.mark = none → ∀ c ∈ n.rest.head?, isPrecisionMark c = false) := by
  cases cs with
  | nil => subst h; simp
  | cons c r =>
    simp only at h
    split at h
    · rename_i hc
      subst h
      simpa using hc
    · rename_i hc
      subst h
      simpa using hc

/-- **Whatever is read as a number is a writing** in front of a text that does not extend it. -/
theorem exists_writing {cs : List Char} {n : NumberText} (h : numberText? cs = some n) :
    ∃ w : Writing, w.Formed ∧ cs = w.chars ++ n.rest ∧ n = w.read n.rest ∧
      ∀ c ∈ n.rest.head?, w.extends? c = false := by
  unfold numberText? at h
  obtain ⟨m, hm, hn⟩ := Option.map_eq_some_iff.mp h
  obtain ⟨point, hcs, hwhole, hfraction, hpoint, hdigit, hstop⟩ := of_mantissa? hm
  cases hx : exponent? m.rest with
  | some er =>
    obtain ⟨e, r⟩ := er
    obtain ⟨hrest, hformed, hafter⟩ := of_exponent? hx
    simp only [hx] at hn
    obtain ⟨hmant, hexp, hr, hmark, hnone⟩ := of_mark_read hn
    refine ⟨⟨m.whole, point, m.fraction, some e, n.mark⟩,
      ⟨hwhole, hfraction, hpoint, hdigit, by simpa using hformed, hmark⟩, ?_, ?_, ?_⟩
    · rw [hcs, hrest, hr]
      simp only [Writing.chars, Writing.ending, List.append_assoc]
    · cases n with
      | mk mantissa exponent mark rest =>
        simp only at hmant hexp hr
        subst hmant hexp
        simp only [Writing.read, Writing.ending, NumberText.mk.injEq, and_true]
        rw [List.append_assoc, ← hr, ← hrest]
    · intro c hc
      cases hk : n.mark with
      | some k => simp [Writing.extends?]
      | none =>
        rw [hk, Option.toList_none, List.nil_append] at hr
        have ha := hafter c (hr ▸ hc)
        have hp := hnone hk c hc
        simp only [Writing.extends?, Option.isNone_none, Bool.true_and, hp, ha.1, Bool.or_false,
          Bool.false_or]
        by_cases hs : e.sign = none ∧ e.digits = []
        · simp [ha.2 hs.1 hs.2]
        · simp only [Bool.and_eq_false_imp, Bool.and_eq_true, Option.isNone_iff_eq_none,
            List.isEmpty_iff]
          exact fun h => absurd h hs
  | none =>
    have hletter := not_isExponentLetter_of_exponent? hx
    simp only [hx] at hn
    obtain ⟨hmant, hexp, hr, hmark, hnone⟩ := of_mark_read hn
    refine ⟨⟨m.whole, point, m.fraction, none, n.mark⟩,
      ⟨hwhole, hfraction, hpoint, hdigit, by simp, hmark⟩, ?_, ?_, ?_⟩
    · rw [hcs, hr]
      simp only [Writing.chars, Writing.ending, Writing.exponentChars, List.nil_append,
        List.append_assoc]
    · cases n with
      | mk mantissa exponent mark rest =>
        simp only at hmant hexp hr
        subst hmant hexp
        simp only [Writing.read, Writing.ending, Writing.exponentChars, List.nil_append,
          NumberText.mk.injEq, and_true]
        rw [← hr]
    · intro c hc
      cases hk : n.mark with
      | some k => simp [Writing.extends?]
      | none =>
        rw [hk, Option.toList_none, List.nil_append] at hr
        have hp := hnone hk c hc
        have hs := hstop c (hr ▸ hc)
        have hl := hletter c (hr ▸ hc)
        simp only [Writing.extends?, Option.isNone_none, Bool.true_and, hp, hs.1, hl, Bool.or_false,
          Bool.false_or]
        simpa using hs.2

/-- A number begins with a digit or a point. -/
theorem Writing.Formed.head (h : w.Formed) :
    ∃ c cs, w.chars = c :: cs ∧ (Text.isDigit c = true ∨ c = '.') := by
  unfold Writing.chars
  cases hw : w.whole with
  | cons c cs => exact ⟨c, _, rfl, Or.inl (h.whole c (by simp [hw]))⟩
  | nil =>
    cases hp : w.point with
    | true => exact ⟨'.', _, rfl, Or.inr rfl⟩
    | false => exact absurd h.digit (by simp [hw, h.point hp])

theorem numberText?_eq_none {c : Char} {cs : List Char} (hd : Text.isDigit c = false)
    (hp : c ≠ '.') :
    numberText? (c :: cs) = none := by
  cases h : numberText? (c :: cs) with
  | none => rfl
  | some n =>
    obtain ⟨w, hformed, hcs, -⟩ := exists_writing h
    obtain ⟨d, ds, hw, hhead⟩ := hformed.head
    rw [hw] at hcs
    obtain rfl : c = d := (List.cons.inj hcs).1
    rcases hhead with hdigit | hpoint
    · rw [hd] at hdigit
      exact absurd hdigit Bool.false_ne_true
    · exact absurd hpoint hp

/-! ## Capitals -/

/-- The writing with its exponent letter in capitals. -/
def Writing.capital (w : Writing) : Writing :=
  { w with exponent := w.exponent.map fun e => { e with letter := e.letter.toUpper } }

theorem isExponentLetter_toUpper {c : Char} (h : isExponentLetter c = true) :
    isExponentLetter c.toUpper = true := by
  simp only [isExponentLetter, Bool.or_eq_true, decide_eq_true_eq] at h
  rcases h with ((rfl | rfl) | rfl) | rfl <;> decide

theorem capital_of_isExponentLetter {c : Char} (h : isExponentLetter c = true) :
    Text.capital c = [c.toUpper] := by
  simp only [isExponentLetter, Bool.or_eq_true, decide_eq_true_eq] at h
  rcases h with ((rfl | rfl) | rfl) | rfl <;> decide

theorem capital_of_isSign {c : Char} (h : isSign c = true) : Text.capital c = [c] := by
  simp only [isSign, Bool.or_eq_true, decide_eq_true_eq] at h
  rcases h with rfl | rfl <;> decide

theorem capital_of_isPrecisionMark {c : Char} (h : isPrecisionMark c = true) :
    Text.capital c = [c] := by
  simp only [isPrecisionMark, Bool.or_eq_true, decide_eq_true_eq] at h
  rcases h with (rfl | rfl) | rfl <;> decide

theorem Writing.Formed.capital (h : w.Formed) : w.capital.Formed := by
  refine ⟨h.whole, h.fraction, h.point, h.digit, fun e he => ?_, h.mark⟩
  obtain ⟨d, hd, rfl⟩ := Option.map_eq_some_iff.mp he
  have hf := h.exponent d hd
  exact ⟨isExponentLetter_toUpper hf.letter, hf.sign, hf.digits⟩

theorem flatMap_capital_exponentChars {e : Exponent} (h : Writing.FormedExponent e) :
    (Writing.exponentChars (some e)).flatMap Text.capital =
      Writing.exponentChars (some { e with letter := e.letter.toUpper }) := by
  have hsign : e.sign.toList.flatMap Text.capital = e.sign.toList := by
    cases hs : e.sign with
    | none => rfl
    | some s => simp [capital_of_isSign (h.sign s hs)]
  simp only [Writing.exponentChars, List.flatMap_cons, List.flatMap_append, hsign,
    capital_of_isExponentLetter h.letter, Text.flatMap_capital_of_isDigit h.digits,
    List.singleton_append]

/-- The characters in capitals are those of the writing in capitals. -/
theorem flatMap_capital_chars (h : w.Formed) : w.chars.flatMap Text.capital = w.capital.chars := by
  have hpoint : (if w.point then ['.'] else [] : List Char).flatMap Text.capital =
      if w.point then ['.'] else [] := by
    cases w.point <;> decide
  have hmark : w.mark.toList.flatMap Text.capital = w.mark.toList := by
    cases hm : w.mark with
    | none => rfl
    | some m => simp [capital_of_isPrecisionMark (h.mark m hm)]
  have hexp : (Writing.exponentChars w.exponent).flatMap Text.capital =
      Writing.exponentChars w.capital.exponent := by
    unfold Writing.capital
    cases he : w.exponent with
    | none => rfl
    | some e => exact flatMap_capital_exponentChars (h.exponent e he)
  unfold Writing.chars Writing.ending
  simp only [List.flatMap_append, Text.flatMap_capital_of_isDigit h.whole,
    Text.flatMap_capital_of_isDigit h.fraction, hpoint, hmark, hexp]
  rfl

theorem extends?_capital (c : Char) : w.capital.extends? c = w.extends? c := by
  unfold Writing.extends? Writing.capital
  cases w.exponent <;> rfl

theorem isUnfinished_capital : (w.capital.read rest).isUnfinished = (w.read rest).isUnfinished := by
  unfold NumberText.isUnfinished Writing.read Writing.capital
  cases w.exponent <;> rfl

theorem isDouble_toUpper {e : Exponent} (h : isExponentLetter e.letter = true) :
    Exponent.isDouble { e with letter := e.letter.toUpper } = e.isDouble := by
  simp only [isExponentLetter, Bool.or_eq_true, decide_eq_true_eq] at h
  unfold Exponent.isDouble
  rcases h with ((h | h) | h) | h <;> simp only [h] <;> decide

theorem isExponentLetter_toUpper_eq (c : Char) :
    isExponentLetter c.toUpper = isExponentLetter c := by
  cases h : isExponentLetter c.toUpper with
  | false =>
    by_contra hc
    rw [isExponentLetter_toUpper (by simpa using hc)] at h
    exact absurd h (by simp)
  | true =>
    by_cases hl : c.isLower = true
    · have hc : c.toUpper.toLower = c := by
        rw [Char.toLower_toUpper_eq_toLower,
          Char.toLower_eq_of_not_isUpper (Char.not_isUpper_of_isLower hl)]
      simp only [isExponentLetter, Bool.or_eq_true, decide_eq_true_eq] at h
      rcases h with ((h | h) | h) | h <;> rw [h] at hc <;> rw [← hc] <;> decide
    · rw [Char.toUpper_eq_of_not_isLower hl] at h
      exact h.symm

/-- A letter extends a number just as its capital does. -/
theorem extends?_toUpper (c : Char) : w.extends? c.toUpper = w.extends? c := by
  have hmark : isPrecisionMark c.toUpper = isPrecisionMark c := Text.apply_toUpper (fun d hd => by
    simp only [isPrecisionMark, Bool.or_eq_true, decide_eq_true_eq] at hd
    rcases hd with (rfl | rfl) | rfl <;> decide) c
  have hdigit : Text.isDigit c.toUpper = Text.isDigit c :=
    Text.apply_toUpper (fun d hd => Text.not_isAlpha_of_isDigit hd) c
  have hsign : isSign c.toUpper = isSign c := Text.apply_toUpper (fun d hd => by
    simp only [isSign, Bool.or_eq_true, decide_eq_true_eq] at hd
    rcases hd with rfl | rfl <;> decide) c
  have hpoint : decide (c.toUpper = '.') = decide (c = '.') :=
    Text.apply_toUpper (q := fun d => decide (d = '.')) (fun d hd => by
      obtain rfl : d = '.' := by simpa using hd
      decide) c
  unfold Writing.extends?
  cases w.exponent with
  | none => simp only [hmark, hdigit, isExponentLetter_toUpper_eq, hpoint]
  | some e => simp only [hmark, hdigit, hsign]

/-- **A number in capitals has the same value.** -/
theorem value_capital (h : w.Formed) {tail : List Char} :
    (w.capital.read tail).value = (w.read rest).value := by
  unfold NumberText.value NumberText.precision NumberText.real Writing.read Writing.capital
  cases he : w.exponent with
  | none => rfl
  | some e =>
    have hd := isDouble_toUpper (h.exponent e he).letter
    simp only [Option.map_some, Option.getD_some, hd]
    rfl

end LineBasic.Lexer
