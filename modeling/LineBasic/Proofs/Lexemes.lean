import Mathlib
import LineBasic.Proofs.Words
import LineBasic.Proofs.WrittenNumber

/-!
# Lexemes

One step of the reading of a line, both ways.

* `lexeme_found`: whatever a step finds is one of the forms of `Found`: a number, a string, a name,
  a reserved word with the text that belongs to it, a blank, a remark or a sign.
* `lexeme_number` to `lexeme_relation`: each of them is found when it stands at the start of the
  text.
-/

namespace LineBasic.Lexer

/-! ## What one step reads -/

/-- What is found at the start of a text, in the terms of the listing. -/
inductive Found (column : Nat) : List Char → Lexeme → Prop where
  | number {w : Writing} {v : Value} {rest : List Char} (formed : w.Formed)
      (finished : (w.read []).isUnfinished = false) (value : (w.read []).value = .ok v)
      (stop : ∀ c ∈ rest.head?, w.extends? c = false ∧ c ≠ '.') :
      Found column (w.chars ++ rest) ⟨[.ofText (.number v) column (String.ofList w.chars)],
      w.chars.length - 1⟩
  | string {body rest : List Char} (inside : '"' ∉ body) :
      Found column ('"' :: (body ++ '"' :: rest))
        ⟨[.ofText (.string (String.ofList body)) column (String.ofList ('"' :: (body ++ ['"'])))],
          body.length + 1⟩
  | name {r : Run} {rest : List Char} (formed : r.Formed) (free : keywordIn? [] r.chars = none)
      (stop : ∀ c ∈ rest.head?, r.extends? c = false) :
      Found column (r.chars ++ rest)
        ⟨[.ofText (.name (nameKind r.capital.chars) (String.ofList r.capital.chars)) column
          (String.ofList r.capital.chars)], r.chars.length - 1⟩
  | keyword {k : Keyword} {c : Char} {cs : List Char}
      (head : k.spelling.toList.head? = some c.toUpper)
      (plain : k ≠ .REM ∧ k ≠ .DATA) :
      Found column (c :: cs)
        ⟨[.ofText (.keyword k) column (String.ofList ((c :: cs).take k.spelling.length))],
          k.spelling.length - 1⟩
  | data {c : Char} {cs : List Char} (head : c.toUpper = 'D') (fits : 4 ≤ (c :: cs).length) :
      Found column (c :: cs)
        ⟨[.ofText (.keyword .DATA) column (String.ofList ((c :: cs).take 4)),
          .ofText (.dataText (String.ofList (dataRun false ((c :: cs).drop 4)))) (column + 4)
            (String.ofList (dataRun false ((c :: cs).drop 4)))],
              4 + (dataRun false ((c :: cs).drop 4)).length - 1⟩
  | rem {c : Char} {cs : List Char} (head : c.toUpper = 'R') (fits : 3 ≤ (c :: cs).length) :
      Found column (c :: cs)
        ⟨[.ofText (.keyword .REM) column (String.ofList ((c :: cs).take 3)),
          .ofText (.remark (String.ofList ((c :: cs).drop 3))) (column + 3)
          (String.ofList ((c :: cs).drop 3))],
          cs.length⟩
  | blank {c : Char} {cs : List Char} (blank : c = ' ' ∨ c = '\t') : Found column (c :: cs) ⟨[], 0⟩
  | apostrophe {cs : List Char} :
      Found column ('\'' :: cs)
        ⟨[.ofText .apostrophe column "'", .ofText (.remark (String.ofList cs)) (column + 1)
          (String.ofList cs)], cs.length⟩
  | sign {c : Char} {cs : List Char} {kind : TokenKind} (sign : sign? c = some kind)
      (stop : ∀ d ∈ cs.head?, relation? c d = none) :
      Found column (c :: cs) ⟨[.ofText kind column (String.singleton c)], 0⟩
  | relation {c d : Char} {cs : List Char} {r : Relation} (pair : relation? c d = some r) :
      Found column (c :: d :: cs) ⟨[.ofText (.relation r) column (String.ofList [c, d])], 1⟩

variable {column ending : Nat} {c : Char} {cs : List Char} {found : Lexeme}

theorem number_found {n : NumberText} (hn : numberText? cs = some n)
    (h : number column cs n = .ok found) :
    Found column cs found := by
  obtain ⟨w, hformed, hcs, hread, hstop⟩ := exists_writing hn
  unfold number at h
  split at h
  · exact absurd h (by simp [malformed])
  · rename_i hgood
    simp only [Bool.or_eq_true, decide_eq_true_eq, not_or, Bool.not_eq_true] at hgood
    split at h
    · rename_i v hv
      obtain rfl := Except.ok.inj h
      have hlen : cs.length - n.rest.length = w.chars.length := by
        rw [hcs, List.length_append, Nat.add_sub_cancel]
      have htake : cs.take w.chars.length = w.chars := by rw [hcs, List.take_left]
      simp only [hlen, htake]
      rw [hread] at hgood hv
      rw [hcs]
      refine .number hformed hgood.2 hv fun c hc => ⟨hstop c hc, fun hp => ?_⟩
      exact hgood.1 (hp ▸ hc)
    · exact absurd h (by simp [malformed])

theorem string_found (h : stringLexeme column ending cs = .ok found) :
    Found column ('"' :: cs) found := by
  unfold stringLexeme at h
  simp only at h
  split at h
  · exact absurd h (by simp [malformed])
  · rename_i hlen
    obtain rfl := Except.ok.inj h
    have hsplit := List.takeWhile_append_dropWhile (p := fun d => d != '"') (l := cs)
    have hinside : '"' ∉ cs.takeWhile (· != '"') := fun hm => by
      simpa using List.mem_takeWhile_imp hm
    cases hd : cs.dropWhile (· != '"') with
    | nil =>
      rw [hd, List.append_nil] at hsplit
      exact absurd (congrArg List.length hsplit) hlen
    | cons d ds =>
      obtain rfl : d = '"' := by simpa using @Text.head?_dropWhile (· != '"') cs d (by simp [hd])
      rw [hd] at hsplit
      nth_rewrite 1 [← hsplit]
      exact .string hinside

theorem word_found (hc : c.isAlpha = true) :
    Found column (c :: cs) (wordLexeme column (c :: cs)) := by
  rcases @word_cases c cs hc with ⟨k, hword, hhead, hfits⟩ | ⟨r, rest, hformed, hcs, hstop, hfree⟩
  · unfold wordLexeme
    simp only [hword]
    split
    · rename_i hk
      obtain rfl : k = .REM := by simpa using hk
      exact .rem (Option.some.inj hhead).symm (hfits (by decide))
    · rename_i hk
      obtain rfl : k = .DATA := by simpa using hk
      exact .data (Option.some.inj hhead).symm (hfits (by decide))
    · rename_i hrem hdata
      exact .keyword hhead ⟨fun h => hrem (by rw [h]), fun h => hdata (by rw [h])⟩
  · rw [hcs]
    unfold wordLexeme
    simp only [word_name hformed hfree hstop, wordText]
    rw [← map_toUpper_chars hformed, List.length_map, map_toUpper_chars hformed]
    exact .name hformed hfree hstop

theorem sign_found (h : signLexeme column c cs = .ok found) : Found column (c :: cs) found := by
  unfold signLexeme at h
  split at h
  · rename_i r hr
    obtain rfl := Except.ok.inj h
    obtain ⟨d, hd, hrel⟩ := Option.bind_eq_some_iff.mp hr
    obtain ⟨ds, rfl⟩ := List.head?_eq_some_iff.mp hd
    exact .relation hrel
  · rename_i hr
    split at h
    · rename_i kind hkind
      obtain rfl := Except.ok.inj h
      refine .sign hkind fun d hd => ?_
      rw [Option.mem_def.mp hd] at hr
      exact hr
    · split at h
      · exact absurd h (by simp)
      · exact absurd h (by simp [malformed])

/-- **One step of the reading** finds one of these. -/
theorem lexeme_found (h : lexeme column ending c cs = .ok found) :
    Found column (c :: cs) found := by
  unfold lexeme at h
  split at h
  · rename_i n hn
    exact number_found hn h
  · split at h
    · rename_i hq
      subst hq
      exact string_found h
    · split at h
      · rename_i ha
        obtain rfl := Except.ok.inj h
        exact word_found ha
      · split at h
        · rename_i hb
          obtain rfl := Except.ok.inj h
          exact .blank (by simpa using hb)
        · split at h
          · rename_i hap
            subst hap
            obtain rfl := Except.ok.inj h
            exact .apostrophe
          · exact sign_found h

theorem scan_cons_ok {ts : List Token} (h : scan column (c :: cs) = .ok ts) :
    ∃ (found : Lexeme) (rest : List Token), Found column (c :: cs) found ∧
      scan (column + 1 + found.more) (cs.drop found.more) = .ok rest ∧
        ts = found.tokens ++ rest := by
  rw [scan] at h
  cases hf : lexeme column (column + 1 + cs.length) c cs with
  | error e => rw [hf] at h; exact absurd h (by simp [bind, Except.bind])
  | ok found =>
    rw [hf] at h
    simp only [bind, Except.bind] at h
    cases hr : scan (column + 1 + found.more) (cs.drop found.more) with
    | error e => rw [hr] at h; exact absurd h (by simp)
    | ok rest =>
      rw [hr] at h
      exact ⟨found, rest, lexeme_found hf, hr, (Except.ok.inj h).symm⟩

/-! ## Finding what is written -/

theorem isDigit_of_isAlpha (h : c.isAlpha = true) : Text.isDigit c = false := by
  by_contra hd
  rw [Text.not_isAlpha_of_isDigit (Bool.not_eq_false _ ▸ hd)] at h
  exact absurd h Bool.false_ne_true

theorem lexeme_number {w : Writing} {v : Value} {rest : List Char} (formed : w.Formed)
    (finished : (w.read []).isUnfinished = false) (value : (w.read []).value = .ok v)
    (stop : ∀ d ∈ rest.head?, w.extends? d = false ∧ d ≠ '.') (h : w.chars ++ rest = c :: cs) :
    lexeme column ending c cs =
      .ok ⟨[.ofText (.number v) column (String.ofList w.chars)], w.chars.length - 1⟩ := by
  have hread := numberText?_chars formed fun d hd => (stop d hd).1
  have hpoint : rest.head? ≠ some '.' := fun hp => (stop '.' hp).2 rfl
  have hvalue : (w.read rest).value = .ok v := value
  have hfinished : (w.read rest).isUnfinished = false := finished
  unfold lexeme
  rw [← h, hread]
  have hgood : ¬((w.read rest).rest.head? = some '.' || (w.read rest).isUnfinished) := by
    rw [hfinished, Bool.or_false, decide_eq_true_eq]
    exact hpoint
  simp only [number]
  rw [if_neg hgood, hvalue]
  simp [Writing.read]

theorem lexeme_string {body rest : List Char} (inside : '"' ∉ body) :
    lexeme column ending '"' (body ++ '"' :: rest) =
      .ok ⟨[.ofText (.string (String.ofList body)) column (String.ofList ('"' :: (body ++ ['"'])))],
        body.length + 1⟩ := by
  have hbody : (body ++ '"' :: rest).takeWhile (· != '"') = body :=
    Text.takeWhile_run (fun d hd => by simpa using fun h : d = '"' => inside (h ▸ hd)) (by simp)
  unfold lexeme
  rw [numberText?_eq_none (by decide) (by decide)]
  simp only [if_true, stringLexeme, hbody]
  rw [if_neg (by simp)]
  rfl

theorem lexeme_word (h : c.isAlpha = true) :
    lexeme column ending c cs = .ok (wordLexeme column (c :: cs)) := by
  unfold lexeme
  rw [numberText?_eq_none (isDigit_of_isAlpha h) (fun hp => by simp [hp] at h)]
  simp only
  rw [if_neg (fun hq => by simp [hq] at h), if_pos h]

theorem lexeme_blank : lexeme column ending ' ' cs = .ok ⟨[], 0⟩ := by
  unfold lexeme
  rw [numberText?_eq_none (by decide) (by decide)]
  rfl

theorem lexeme_apostrophe :
    lexeme column ending '\'' cs =
      .ok ⟨[.ofText .apostrophe column "'", .ofText (.remark (String.ofList cs)) (column + 1)
        (String.ofList cs)], cs.length⟩ := by
  unfold lexeme
  rw [numberText?_eq_none (by decide) (by decide)]
  rfl

/-- The characters that are signs on their own. -/
def signChars : List Char :=
  ['<', '>', '=', '+', '-', '*', '/', '^', '\\', '?', '(', ')', ',', ';', ':']

/-- A sign is no digit, letter, quote, blank or apostrophe. -/
theorem kind_of_mem_signChars (h : c ∈ signChars) :
    Text.isDigit c = false ∧ c ≠ '.' ∧ c ≠ '"' ∧ c.isAlpha = false ∧ (c = ' ' || c = '\t') = false ∧
      c ≠ '\'' := by
  simp only [signChars, List.mem_cons, List.not_mem_nil, or_false] at h
  rcases h with rfl | rfl | rfl | rfl | rfl | rfl | rfl | rfl | rfl | rfl | rfl | rfl | rfl | rfl |
    rfl <;> decide

theorem lexeme_eq_signLexeme (h : c ∈ signChars) :
    lexeme column ending c cs = signLexeme column c cs := by
  obtain ⟨hdigit, hpoint, hquote, halpha, hblank, hap⟩ := kind_of_mem_signChars h
  unfold lexeme
  rw [numberText?_eq_none hdigit hpoint]
  simp only
  rw [if_neg hquote, if_neg (by simp [halpha]), if_neg (by simp [hblank]), if_neg hap]

theorem mem_of_sign? {kind : TokenKind} (h : sign? c = some kind) : c ∈ signChars := by
  unfold sign? at h
  split at h
  case h_16 => exact absurd h (by simp)
  all_goals decide

theorem mem_of_relation? {d : Char} {r : Relation} (h : relation? c d = some r) :
    c ∈ ['<', '>', '='] ∧ d ∈ ['<', '>', '='] := by
  unfold relation? at h
  split at h
  case h_7 => exact absurd h (by simp)
  all_goals decide

theorem lexeme_sign {kind : TokenKind} (sign : sign? c = some kind)
    (stop : ∀ d ∈ cs.head?, relation? c d = none) :
    lexeme column ending c cs = .ok ⟨[.ofText kind column (String.singleton c)], 0⟩ := by
  rw [lexeme_eq_signLexeme (mem_of_sign? sign)]
  unfold signLexeme
  cases hd : cs.head? with
  | none => simp [sign]
  | some d => simp [stop d hd, sign]

theorem lexeme_relation {d : Char} {r : Relation} (pair : relation? c d = some r) :
    lexeme column ending c (d :: cs) =
      .ok ⟨[.ofText (.relation r) column (String.ofList [c, d])], 1⟩ := by
  have hsign : c ∈ signChars := by
    have := (mem_of_relation? pair).1
    simp only [signChars, List.mem_cons, List.not_mem_nil, or_false] at this ⊢
    tauto
  rw [lexeme_eq_signLexeme hsign]
  unfold signLexeme
  simp [pair]

end LineBasic.Lexer
