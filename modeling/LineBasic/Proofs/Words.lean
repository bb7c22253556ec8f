import Mathlib
import LineBasic.Proofs.Characters
import LineBasic.Token.Lexer

/-!
# Words

A `Run` is the grammar of a word: letters, then digits, then at most one mark. The reader takes the
longest run, and in it the shortest start that is a reserved word.

* `wordRun_chars`, `exists_run`: a run is read back from in front of a text that does not extend it,
  and whatever is read is such a run.
* `prefix_free`: of the reserved words only DEF is the start of another.
* `word_keyword`, `word_name`: a reserved word and a name are read back from their spellings.
-/

namespace LineBasic.Lexer

/-- Letters, digits and a mark. -/
structure Run where
  letters : List Char
  digits : List Char
  mark : Option Char

namespace Run

/-- The characters of a run. -/
def chars (r : Run) : List Char := r.letters ++ (r.digits ++ r.mark.toList)

/-- The parts are of the right kinds, and there is a letter. -/
structure Formed (r : Run) : Prop where
  letters : ∀ c ∈ r.letters, c.isAlpha = true
  digits : ∀ c ∈ r.digits, c.isDigit = true
  mark : ∀ c ∈ r.mark, isSigil c = true
  letter : r.letters ≠ []

/-- A character that would be read as part of the run if it stood right behind it. -/
def extends? (r : Run) (c : Char) : Bool :=
  r.mark.isNone && (isSigil c || c.isDigit || (r.digits.isEmpty && c.isAlpha))

/-- The run in capitals. -/
def capital (r : Run) : Run := { r with letters := r.letters.map Char.toUpper }

end Run

/-! ## Kinds of characters -/

theorem not_isAlpha_of_isDigit {c : Char} (h : c.isDigit = true) : c.isAlpha = false := by
  by_contra ha
  rw [Bool.not_eq_false, Text.isAlpha_iff_toNat] at ha
  have hd := Char.isDigit_iff_toNat.mp h
  have h9 : '9'.toNat = 57 := rfl
  omega

theorem not_isAlpha_of_isSigil {c : Char} (h : isSigil c = true) : c.isAlpha = false := by
  simp only [isSigil, Bool.or_eq_true, decide_eq_true_eq] at h
  rcases h with ((rfl | rfl) | rfl) | rfl <;> decide

theorem not_isDigit_of_isSigil {c : Char} (h : isSigil c = true) : c.isDigit = false := by
  simp only [isSigil, Bool.or_eq_true, decide_eq_true_eq] at h
  rcases h with ((rfl | rfl) | rfl) | rfl <;> decide

theorem Run.Formed.chars_ne_nil {r : Run} (h : r.Formed) : r.chars ≠ [] := by
  unfold Run.chars
  simp [h.letter]

theorem Run.extends?_toUpper (r : Run) (c : Char) : r.extends? c.toUpper = r.extends? c := by
  unfold Run.extends?
  rw [Text.apply_toUpper (fun _ => not_isAlpha_of_isSigil),
    Text.apply_toUpper (fun _ => not_isAlpha_of_isDigit), Char.isAlpha_toUpper_eq_isAlpha]

/-! ## Reading a run back -/

variable {r : Run} {rest : List Char}

theorem wordRun_chars (h : r.Formed) (hr : ∀ c ∈ rest.head?, r.extends? c = false) :
    wordRun (r.chars ++ rest) = r.chars := by
  have hdigits : ∀ c ∈ (r.mark.toList ++ rest).head?, c.isDigit = false := by
    intro c hc
    cases hm : r.mark with
    | some m =>
      rw [hm] at hc
      obtain rfl : m = c := by simpa using hc
      exact not_isDigit_of_isSigil (h.mark m hm)
    | none =>
      have hx := hr c (by simpa [hm] using hc)
      simp only [Run.extends?, hm, Option.isNone_none, Bool.true_and, Bool.or_eq_false_iff] at hx
      exact hx.1.2
  have hletters : ∀ c ∈ (r.digits ++ (r.mark.toList ++ rest)).head?, c.isAlpha = false := by
    intro c hc
    cases hd : r.digits with
    | cons d ds =>
      rw [hd] at hc
      obtain rfl : d = c := by simpa using hc
      exact not_isAlpha_of_isDigit (h.digits d (by simp [hd]))
    | nil =>
      rw [hd] at hc
      cases hm : r.mark with
      | some m =>
        rw [hm] at hc
        obtain rfl : m = c := by simpa using hc
        exact not_isAlpha_of_isSigil (h.mark m hm)
      | none =>
        have hx := hr c (by simpa [hm] using hc)
        simp only [Run.extends?, hm, hd, Option.isNone_none, Bool.true_and, Bool.or_eq_false_iff,
          List.isEmpty_nil] at hx
        exact hx.2
  have hmark : ((r.mark.toList ++ rest).take 1).filter isSigil = r.mark.toList := by
    cases hm : r.mark with
    | some m => simp [h.mark m hm]
    | none =>
      cases rest with
      | nil => rfl
      | cons c cs =>
        have hx := hr c rfl
        simp only [Run.extends?, hm, Option.isNone_none, Bool.true_and, Bool.or_eq_false_iff] at hx
        simp [hx.1.1]
  unfold wordRun Run.chars
  simp only [List.append_assoc]
  rw [Text.takeWhile_run h.letters hletters, Text.dropWhile_run h.letters hletters,
    Text.takeWhile_run h.digits hdigits, Text.dropWhile_run h.digits hdigits, hmark]

/-- **Whatever is read as a word is a run** in front of a text that does not extend it. -/
theorem exists_run {c : Char} {cs : List Char} (hc : c.isAlpha = true) :
    ∃ (r : Run) (rest : List Char), r.Formed ∧ wordRun (c :: cs) = r.chars ∧
      c :: cs = r.chars ++ rest ∧
      ∀ d ∈ rest.head?, r.extends? d = false := by
  set letters := (c :: cs).takeWhile Char.isAlpha with hl
  set after := (c :: cs).dropWhile Char.isAlpha with ha
  set digits := after.takeWhile Char.isDigit with hd
  set behind := after.dropWhile Char.isDigit with hb
  have hcs : c :: cs = letters ++ (digits ++ behind) := by
    rw [hd, hb, List.takeWhile_append_dropWhile, hl, ha, List.takeWhile_append_dropWhile]
  have hletters : ∀ d ∈ letters, d.isAlpha = true := fun d => List.mem_takeWhile_imp
  have hdigits : ∀ d ∈ digits, d.isDigit = true := fun d => List.mem_takeWhile_imp
  have hne : letters ≠ [] := by simp [hl, hc]
  have hstop : ∀ d ∈ behind.head?, d.isDigit = false ∧ (digits = [] → d.isAlpha = false) := by
    intro d hm
    refine ⟨Text.head?_dropWhile hm, fun hnil => ?_⟩
    have : behind = after := by
      have := List.takeWhile_append_dropWhile (p := Char.isDigit) (l := after)
      rwa [← hd, ← hb, hnil, List.nil_append] at this
    rw [this] at hm
    exact Text.head?_dropWhile hm
  cases hbeh : behind with
  | nil =>
    refine ⟨⟨letters, digits, none⟩, [], ⟨hletters, hdigits, by simp, hne⟩, ?_, ?_, by simp⟩
    · unfold wordRun
      simp only [← hl, ← ha, ← hd, ← hb, hbeh, Run.chars]
      simp
    · rw [hcs, hbeh]
      simp [Run.chars]
  | cons d ds =>
    rw [hbeh] at hstop
    cases hs : isSigil d with
    | true =>
      refine ⟨⟨letters, digits, some d⟩, ds, ⟨hletters, hdigits, by simpa using hs, hne⟩,
        ?_, ?_, ?_⟩
      · unfold wordRun
        simp only [← hl, ← ha, ← hd, ← hb, hbeh, Run.chars]
        simp [hs]
      · rw [hcs, hbeh]
        simp [Run.chars]
      · simp [Run.extends?]
    | false =>
      refine ⟨⟨letters, digits, none⟩, d :: ds, ⟨hletters, hdigits, by simp, hne⟩, ?_, ?_, ?_⟩
      · unfold wordRun
        simp only [← hl, ← ha, ← hd, ← hb, hbeh, Run.chars]
        simp [hs]
      · rw [hcs, hbeh]
        simp [Run.chars]
      · intro e he
        obtain rfl : d = e := by simpa using he
        have := hstop d rfl
        simp only [Run.extends?, Option.isNone_none, Bool.true_and, hs, this.1, Bool.or_false,
          Bool.false_or, Bool.and_eq_false_imp, List.isEmpty_iff]
        exact this.2

theorem Run.Formed.capital (h : r.Formed) : r.capital.Formed := by
  refine ⟨fun c hc => ?_, h.digits, h.mark, by simpa [Run.capital] using h.letter⟩
  obtain ⟨d, hd, rfl⟩ := List.mem_map.mp hc
  rw [Char.isAlpha_toUpper_eq_isAlpha]
  exact h.letters d hd

theorem map_toUpper_chars (h : r.Formed) : r.chars.map Char.toUpper = r.capital.chars := by
  have hdigits : r.digits.map Char.toUpper = r.digits :=
    (List.map_congr_left fun c hc => Text.toUpper_of_not_isAlpha
      (not_isAlpha_of_isDigit (h.digits c hc))).trans
      (List.map_id' _)
  have hmark : r.mark.toList.map Char.toUpper = r.mark.toList := by
    cases hm : r.mark with
    | none => rfl
    | some m => simp [Text.toUpper_of_not_isAlpha (not_isAlpha_of_isSigil (h.mark m hm))]
  simp only [Run.chars, Run.capital, List.map_append, hdigits, hmark]

/-! ## Reserved words -/

/-- The code points of a spelling, on which the table of reserved words is compared. -/
def spellingCodes (k : Keyword) : List Nat := k.spelling.toList.map Char.toNat

theorem codes_prefix_free : ∀ j ∈ Keyword.all, ∀ k ∈ Keyword.all,
    (spellingCodes j).isPrefixOf (spellingCodes k) = true → j = k ∨ j = .DEF := by
  decide +kernel

/-- Every spelling is letters, perhaps with a dollar sign behind them. -/
theorem spelling_parts : ∀ k ∈ Keyword.all, k.spelling.toList.head?.any Char.isUpper = true ∧
    (k.spelling.toList.dropWhile Char.isUpper = [] ∨ k.spelling.toList.dropWhile Char.isUpper =
      ['$']) := by
  decide +kernel

theorem mem_all (k : Keyword) : k ∈ Keyword.all := by
  cases k with
  | builtin f => cases f <;> decide
  | _ => decide

/-- **Of the reserved words only DEF is the start of another.** -/
theorem prefix_free {j k : Keyword} (h : j.spelling.toList <+: k.spelling.toList) :
    j = k ∨ j = .DEF := by
  apply codes_prefix_free j (mem_all j) k (mem_all k)
  rw [List.isPrefixOf_iff_prefix]
  exact h.map Char.toNat

theorem spelling_injective {j k : Keyword} (h : j.spelling = k.spelling) : j = k := by
  rcases prefix_free (j := j) (k := k) (by rw [h]) with hjk | hj
  · exact hjk
  · rcases prefix_free (j := k) (k := j) (by rw [h]) with hkj | hk
    · exact hkj.symm
    · rw [hj, hk]

theorem ofSpelling?_eq_some_iff {s : String} {k : Keyword} :
    Keyword.ofSpelling? s = some k ↔ k.spelling = s := by
  unfold Keyword.ofSpelling?
  constructor
  · intro h
    simpa using List.find?_some h
  · rintro rfl
    cases hf : Keyword.all.find? (fun j => decide (j.spelling = k.spelling)) with
    | none =>
      rw [List.find?_eq_none] at hf
      exact absurd (decide_eq_true rfl) (hf k (mem_all k))
    | some j =>
      have hj : j.spelling = k.spelling := by simpa using List.find?_some hf
      rw [spelling_injective hj]

/-- The shortest start that is a reserved word: it is spelled by the characters taken, and no
shorter start is. -/
theorem keywordIn?_append_of_none {start cs : List Char} (ds : List Char)
    (h : keywordIn? start cs = none) :
    keywordIn? start (cs ++ ds) = keywordIn? (start ++ cs.map Char.toUpper) ds := by
  induction cs generalizing start with
  | nil => simp
  | cons c cs ih =>
    simp only [keywordIn?] at h
    simp only [List.cons_append, keywordIn?]
    split at h
    · exact absurd h (by simp)
    · rw [ih h, List.append_assoc]
      rfl

theorem keywordIn?_eq_some {start cs : List Char} {k : Keyword} {n : Nat}
    (h : keywordIn? start cs = some (k, n)) :
    ∃ used, used <+: cs ∧ used ≠ [] ∧ n = start.length + used.length ∧
      k.spelling.toList = start ++ used.map Char.toUpper := by
  induction cs generalizing start with
  | nil => exact absurd h (by simp [keywordIn?])
  | cons c cs ih =>
    simp only [keywordIn?] at h
    split at h
    · rename_i j hj
      obtain ⟨rfl, rfl⟩ := Prod.mk.inj (Option.some.inj h)
      refine ⟨[c], ⟨cs, rfl⟩, by simp, by simp, ?_⟩
      rw [ofSpelling?_eq_some_iff.mp hj]
      simp
    · obtain ⟨used, ⟨t, rfl⟩, hne, hn, hs⟩ := ih h
      refine ⟨c :: used, ⟨t, rfl⟩, by simp, ?_, ?_⟩
      · rw [hn]
        simp only [List.length_append, List.length_cons, List.length_nil]
        omega
      · simpa using hs

theorem keywordIn?_map_toUpper (start cs : List Char) :
    keywordIn? start (cs.map Char.toUpper) = keywordIn? start cs := by
  induction cs generalizing start with
  | nil => rfl
  | cons c cs ih => simp only [List.map_cons, keywordIn?, Char.toUpper_toUpper_eq_toUpper, ih]

/-- Either a start of the text is a reserved word, or the reserved word found behind is longer. -/
theorem keywordIn?_append_of_some {start cs : List Char} (ds : List Char) {r : Keyword × Nat}
    (h : keywordIn? start cs = some r) : keywordIn? start (cs ++ ds) = some r := by
  induction cs generalizing start with
  | nil => exact absurd h (by simp [keywordIn?])
  | cons c cs ih =>
    simp only [keywordIn?] at h
    simp only [List.cons_append, keywordIn?]
    split at h
    · exact h
    · exact ih h

/-- A reserved word begins with a letter. -/
theorem spelling_head (k : Keyword) : ∃ c ds, k.spelling.toList = c :: ds ∧ c.isAlpha = true := by
  have hhead := (spelling_parts k (mem_all k)).1
  cases hs : k.spelling.toList with
  | nil => rw [hs] at hhead; exact absurd hhead (by simp)
  | cons c ds =>
    rw [hs] at hhead
    exact ⟨c, ds, rfl, by simpa [Char.isAlpha] using Or.inl hhead⟩

theorem spelling_ne_nil (k : Keyword) : k.spelling.toList ≠ [] := by
  obtain ⟨c, ds, hs, -⟩ := spelling_head k
  simp [hs]

/-- Spellings are in capitals. -/
theorem map_toUpper_spelling (k : Keyword) :
    k.spelling.toList.map Char.toUpper = k.spelling.toList := by
  have hpart := (spelling_parts k (mem_all k)).2
  have hsplit := List.takeWhile_append_dropWhile (p := Char.isUpper) (l := k.spelling.toList)
  have hupper : ∀ c ∈ k.spelling.toList.takeWhile Char.isUpper, c.toUpper = c := fun c hc =>
    Char.toUpper_eq_of_not_isLower (Char.not_isLower_of_isUpper (List.mem_takeWhile_imp hc))
  rw [← hsplit, List.map_append, (List.map_congr_left hupper).trans (List.map_id' _)]
  rcases hpart with h | h <;> rw [h] <;> rfl

/-- A spelling of a reserved word is recognised at its end and not before, unless it starts with
DEF. -/
theorem keywordIn?_spelling {k : Keyword}
    (hk : ¬ Keyword.DEF.spelling.toList <+: k.spelling.toList ∨ k = .DEF) (more : List Char) :
    keywordIn? [] (k.spelling.toList ++ more) = some (k, k.spelling.length) := by
  cases h : keywordIn? [] k.spelling.toList with
  | some r =>
    obtain ⟨j, n⟩ := r
    obtain ⟨used, hused, -, hn, hj⟩ := keywordIn?_eq_some h
    have hpre : j.spelling.toList <+: k.spelling.toList := by
      rw [hj, List.nil_append, ← map_toUpper_spelling k]
      exact hused.map Char.toUpper
    have hjk : j = k := by
      rcases prefix_free hpre with hjk | rfl
      · exact hjk
      · rcases hk with hk | rfl
        · exact absurd hpre hk
        · rfl
    subst hjk
    rw [keywordIn?_append_of_some more h, hn, ← String.length_toList, hj]
    simp
  | none =>
    -- reading up to the last letter finds nothing, so the whole spelling is looked up
    exfalso
    obtain ⟨cs, c, hcs⟩ := List.eq_nil_or_concat' k.spelling.toList |>.resolve_left
      (spelling_ne_nil k)
    have hup := map_toUpper_spelling k
    rw [hcs] at h hup
    have hnone : keywordIn? [] cs = none := by
      cases hp : keywordIn? [] cs with
      | none => rfl
      | some r => rw [keywordIn?_append_of_some [c] hp] at h; exact absurd h (by simp)
    rw [keywordIn?_append_of_none [c] hnone] at h
    simp only [keywordIn?, List.nil_append] at h
    have hword : cs.map Char.toUpper ++ [c.toUpper] = k.spelling.toList := by
      rw [hcs, ← hup, List.map_append]
      simp
    rw [hword, String.ofList_toList, ofSpelling?_eq_some_iff.mpr rfl] at h
    exact absurd h (by simp)

/-! ## Words -/

theorem wordRun_letters {cs : List Char} (h : ∀ c ∈ cs, c.isAlpha = true) (rest : List Char) :
    wordRun (cs ++ rest) = cs ++ wordRun rest := by
  unfold wordRun
  simp only [List.takeWhile_append_of_pos h, List.dropWhile_append_of_pos h, List.append_assoc]

/-- The run at the start of a spelling goes at least as far as the spelling. -/
theorem wordRun_spelling (k : Keyword) (rest : List Char) :
    ∃ more, wordRun (k.spelling.toList ++ rest) = k.spelling.toList ++ more := by
  have hsplit := List.takeWhile_append_dropWhile (p := Char.isUpper) (l := k.spelling.toList)
  have halpha : ∀ c ∈ k.spelling.toList.takeWhile Char.isUpper, c.isAlpha = true := by
    intro c hc
    simp [Char.isAlpha, List.mem_takeWhile_imp hc]
  rcases (spelling_parts k (mem_all k)).2 with h | h
  · rw [h, List.append_nil] at hsplit
    rw [hsplit] at halpha
    exact ⟨wordRun rest, wordRun_letters halpha rest⟩
  · rw [h] at hsplit
    refine ⟨[], ?_⟩
    rw [← hsplit, List.append_assoc, wordRun_letters halpha, List.append_assoc]
    rfl

/-- The words that start with DEF are those that DEF makes with three more letters. -/
theorem def_start : ∀ k ∈ Keyword.all, (spellingCodes .DEF).isPrefixOf (spellingCodes k) = true →
    k = .DEF ∨ ∃ e ∈ defWords, e.2 = k ∧
      k.spelling.toList = Keyword.DEF.spelling.toList ++ e.1.toList := by
  decide +kernel

theorem defWord?_append :
    ∀ e ∈ defWords, ∀ rest : List Char, defWord? (e.1.toList ++ rest) = some e.2 := by
  have hlen : ∀ e ∈ defWords, e.1.toList.length = 3 := by decide
  have hfind : ∀ e ∈ defWords,
      ((defWords.find? fun w => w.1.toList = e.1.toList.flatMap Text.capital).map Prod.snd) =
      some e.2 := by decide
  intro e he rest
  unfold defWord?
  rw [List.take_append_of_le_length (hlen e he).ge, ← hlen e he, List.take_length]
  exact hfind e he

/-- **A reserved word is read back from its spelling**; behind DEF no letters may follow that make
it longer. -/
theorem word_keyword {k : Keyword} {rest : List Char} (hdef : k = .DEF → defWord? rest = none) :
    word (k.spelling.toList ++ rest) = (.keyword k, k.spelling.length) := by
  obtain ⟨more, hrun⟩ := wordRun_spelling k rest
  by_cases hk : ∃ e ∈ defWords, e.2 = k ∧
    k.spelling.toList = Keyword.DEF.spelling.toList ++ e.1.toList
  · obtain ⟨e, he, rfl, hs⟩ := hk
    have hword : keywordIn? [] (wordRun (e.2.spelling.toList ++ rest)) = some (.DEF, 3) := by
      rw [hrun, hs, List.append_assoc]
      exact keywordIn?_spelling (Or.inr rfl) _
    have hdrop : (e.2.spelling.toList ++ rest).drop 3 = e.1.toList ++ rest := by
      rw [hs, List.append_assoc]
      rfl
    have hlen : ∀ e ∈ defWords, e.2.spelling.length = 6 := by decide
    unfold word
    simp only [hword, hdrop, defWord?_append e he rest, hlen e he]
  · have hstart : ¬ Keyword.DEF.spelling.toList <+: k.spelling.toList ∨ k = .DEF := by
      by_cases hpre : Keyword.DEF.spelling.toList <+: k.spelling.toList
      · right
        have hcodes : (spellingCodes .DEF).isPrefixOf (spellingCodes k) = true := by
          rw [List.isPrefixOf_iff_prefix]
          exact hpre.map Char.toNat
        exact (def_start k (mem_all k) hcodes).resolve_right hk
      · exact Or.inl hpre
    have hword : keywordIn? [] (wordRun (k.spelling.toList ++ rest)) =
        some (k, k.spelling.length) := by
      rw [hrun]
      exact keywordIn?_spelling hstart more
    unfold word
    simp only [hword]
    split
    · rename_i n hkn
      obtain ⟨rfl, rfl⟩ := Prod.mk.inj (Option.some.inj hkn)
      have hrest : (Keyword.DEF.spelling.toList ++ rest).drop Keyword.DEF.spelling.length =
          rest := by
        rw [← String.length_toList, List.drop_left]
      simp only [hrest, hdef rfl]
    · rename_i hkn
      obtain ⟨rfl, rfl⟩ := Prod.mk.inj (Option.some.inj hkn)
      rfl
    · rename_i hkn
      exact absurd hkn (by simp)

/-- **A name is read back** from in front of a text that does not extend it. -/
theorem word_name {r : Run} (h : r.Formed) (hk : keywordIn? [] r.chars = none)
    (hr : ∀ c ∈ rest.head?, r.extends? c = false) :
    word (r.chars ++ rest) =
      (.name (nameKind r.capital.chars) (String.ofList r.capital.chars),
        r.capital.chars.length) := by
  unfold word
  simp only [wordRun_chars h hr, hk, map_toUpper_chars h]
  rw [← map_toUpper_chars h, List.length_map]

/-- **Whatever is read as a word** is a reserved word or a run without one. Only the words that DEF
makes can be longer than their text, when that has characters with longer capitals. -/
theorem word_cases {c : Char} {cs : List Char} (hc : c.isAlpha = true) :
    (∃ k : Keyword, word (c :: cs) = (.keyword k, k.spelling.length) ∧
      k.spelling.toList.head? = some c.toUpper ∧
      (k ∉ defWords.map Prod.snd → k.spelling.length ≤ (c :: cs).length)) ∨
    ∃ (r : Run) (rest : List Char), r.Formed ∧ c :: cs = r.chars ++ rest ∧
      (∀ d ∈ rest.head?, r.extends? d = false) ∧ keywordIn? [] r.chars = none := by
  obtain ⟨r, rest, hformed, hrun, hcs, hstop⟩ := @exists_run c cs hc
  cases hk : keywordIn? [] r.chars with
  | none => exact Or.inr ⟨r, rest, hformed, hcs, hstop, hk⟩
  | some kn =>
    obtain ⟨k, n⟩ := kn
    obtain ⟨used, ⟨t, ht⟩, hne, hn, hs⟩ := keywordIn?_eq_some hk
    have hhead : k.spelling.toList.head? = some c.toUpper := by
      obtain ⟨d, ds, rfl⟩ := List.exists_cons_of_ne_nil hne
      rw [← ht] at hcs
      obtain rfl : c = d := by simpa using (List.cons.inj hcs).1
      rw [hs]
      rfl
    have hlen : n = k.spelling.length := by
      rw [hn, ← String.length_toList, hs]
      simp
    have hfits : k.spelling.length ≤ (c :: cs).length := by
      have hused : (c :: cs).length = used.length + t.length + rest.length := by
        rw [hcs, ← ht, List.length_append, List.length_append]
      rw [← hlen, hn, hused]
      simp only [List.length_nil]
      omega
    left
    unfold word
    simp only [hrun, hk]
    by_cases hdef : k = .DEF
    · subst hdef
      have hdefs : ∀ e ∈ defWords, e.2.spelling.length = 3 + 3 ∧
          e.2.spelling.toList.head? = Keyword.DEF.spelling.toList.head? := by decide
      simp only
      cases hw : defWord? ((c :: cs).drop n) with
      | none => exact ⟨.DEF, by rw [hlen], hhead, fun _ => hfits⟩
      | some k =>
        unfold defWord? at hw
        obtain ⟨e, he, rfl⟩ := Option.map_eq_some_iff.mp hw
        obtain ⟨h6, hh⟩ := hdefs e (List.mem_of_find?_eq_some he)
        refine ⟨e.2, ?_, hh.trans hhead, fun hnot => absurd ?_ hnot⟩
        · rw [h6, hlen]
          rfl
        · exact List.mem_map_of_mem (List.mem_of_find?_eq_some he)
    · refine ⟨k, ?_, hhead, fun _ => hfits⟩
      split
      · rename_i m hm
        exact absurd (Prod.mk.inj (Option.some.inj hm)).1 hdef
      · rename_i hm
        obtain ⟨rfl, rfl⟩ := Prod.mk.inj (Option.some.inj hm)
        rw [hlen]
      · rename_i hm
        exact absurd hm (by simp)

end LineBasic.Lexer
