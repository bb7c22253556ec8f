import Mathlib
import LineBasic.Proofs.Lexed

/-!
# Tokens tile the line

The tokens of a line stand one behind the other, each in the columns of the characters it was read
from, and only blanks and tabs are left out.

* `WordAt`: which word a text begins with. Of the longest run of letters, digits and a mark it is
  the shortest start that is a reserved word, or the whole run as a name. DEF is read together with
  the three letters that make a longer word.
* `Tiles`: tokens that cover a line from a column on. Only blanks and tabs stand between them.
* `tiles_scan`: the tokens that are read from a line tile it; `Tiles.joinJumps`: so they do after GO
  TO has become one token.
* **`tokenize_tiles`**: the tokens of a text are in order, lie within it and leave only blanks, tabs
  and the ends of the line out; each has the text of its columns, and each word is the one that
  `WordAt` tells.
-/

namespace LineBasic.Lexer

/-! ## Words -/

/-- The characters spell a reserved word. -/
def Spelled (cs : List Char) : Prop :=
  ∃ k : Keyword, k.spelling.toList = cs

/-- The letters, digits and at most one mark at the start of a text, as many as there are. -/
structure LongestRun (text : List Char) (r : Run) : Prop where
  formed : r.Formed
  longest : ∃ rest, text = r.chars ++ rest ∧ ∀ c ∈ rest.head?, r.extends? c = false

/-- The shortest start of a run, in capitals, that is a reserved word. -/
structure ShortestWord (r : Run) (k : Keyword) : Prop where
  start : k.spelling.toList <+: r.capital.chars
  shortest : ∀ cs, cs <+: k.spelling.toList → Spelled cs → cs = k.spelling.toList

/-- The capitals of the three characters behind DEF. -/
def defEnding (text : List Char) : List Char :=
  ((text.drop 3).take 3).flatMap Text.capital

/-- What word a text begins with, and how many characters it takes. -/
inductive WordAt (text : List Char) : TokenKind → Nat → Prop where
  | keyword {r : Run} {k : Keyword} (run : LongestRun text r) (word : ShortestWord r k)
      (alone : k = .DEF → ∀ e ∈ defWords, e.1.toList ≠ defEnding text) :
        WordAt text (.keyword k) k.spelling.length
  | longer {r : Run} {e : String × Keyword} (run : LongestRun text r) (word : ShortestWord r .DEF)
      (mem : e ∈ defWords)
      (ending : e.1.toList = defEnding text) : WordAt text (.keyword e.2) (text.take 6).length
  | name {r : Run} (run : LongestRun text r) (free : ∀ cs, cs <+: r.capital.chars → ¬ Spelled cs) :
      WordAt text (.name (nameKind r.capital.chars) (String.ofList r.capital.chars)) r.chars.length

/-- A reserved word at the start of a run is found, or a shorter one in front of it. -/
theorem exists_keywordIn? (start : List Char) {cs ds : List Char} (hne : ds ≠ [])
    (hds : ds <+: cs.map Char.toUpper) (hspelled : Spelled (start ++ ds)) :
    ∃ k n, keywordIn? start cs = some (k, n) ∧ k.spelling.toList <+: start ++ ds := by
  induction cs generalizing start ds with
  | nil => exact absurd (List.prefix_nil.1 hds) hne
  | cons c cs ih =>
    obtain ⟨d, es, rfl⟩ := List.exists_cons_of_ne_nil hne
    rw [List.map_cons, List.cons_prefix_cons] at hds
    obtain ⟨rfl, hes⟩ := hds
    simp only [keywordIn?]
    cases hk : Keyword.ofSpelling? (String.ofList (start ++ [c.toUpper])) with
    | some k =>
      refine ⟨k, _, rfl, es, ?_⟩
      rw [ofSpelling?_eq_some_iff.1 hk]
      simp
    | none =>
      have hmore : es ≠ [] := by
        rintro rfl
        obtain ⟨j, hj⟩ := hspelled
        have hsome :=
          ofSpelling?_eq_some_iff.2
            (show j.spelling = String.ofList (start ++ [c.toUpper]) by simp [← hj])
        rw [hk] at hsome
        cases hsome
      simpa using ih (start ++ [c.toUpper]) hmore hes (by simpa using hspelled)

variable {r : Run} {c : Char} {cs text : List Char}

theorem Spelled.ne_nil (h : Spelled cs) : cs ≠ [] := by
  obtain ⟨k, rfl⟩ := h
  exact spelling_ne_nil k

theorem shortestWord_of_keywordIn? (hformed : r.Formed) {k : Keyword} {n : Nat}
    (h : keywordIn? [] r.chars = some (k, n)) :
    ShortestWord r k ∧ n = k.spelling.length := by
  obtain ⟨used, hused, -, hn, hk⟩ := keywordIn?_eq_some h
  rw [List.nil_append] at hk
  have hstart : k.spelling.toList <+: r.capital.chars := by
    rw [hk, ← map_toUpper_chars hformed]
    exact hused.map Char.toUpper
  refine ⟨⟨hstart, fun ds hds hspelled => ?_⟩, ?_⟩
  · obtain ⟨j, m, hj, hpre⟩ := exists_keywordIn? [] hspelled.ne_nil
      (by rw [map_toUpper_chars hformed]; exact hds.trans hstart) hspelled
    rw [h] at hj
    cases hj
    exact hds.eq_of_length_le hpre.length_le
  · rw [hn, ← String.length_toList, hk]
    simp

theorem wordAt_word (hc : c.isAlpha = true) :
    WordAt (c :: cs) (word (c :: cs)).1 ((c :: cs).take (word (c :: cs)).2).length := by
  obtain ⟨r, rest, hformed, hrun, hcs, hstop⟩ := @exists_run c cs hc
  have hlongest : LongestRun (c :: cs) r := ⟨hformed, rest, hcs, hstop⟩
  have hfits : ∀ ds : List Char, ds <+: r.capital.chars → ds.length ≤ (c :: cs).length := by
    intro ds hds
    have hlen := hds.length_le
    rw [← map_toUpper_chars hformed, List.length_map] at hlen
    rw [hcs, List.length_append]
    omega
  unfold word
  simp only [hrun]
  cases hk : keywordIn? [] r.chars with
  | none =>
    have htake : ((c :: cs).take r.chars.length).length = r.chars.length := by
      rw [hcs, List.take_left]
    simp only [map_toUpper_chars hformed, htake]
    refine .name hlongest fun ds hds hspelled => ?_
    obtain ⟨j, m, hj, -⟩ :=
      exists_keywordIn? [] hspelled.ne_nil (by rwa [map_toUpper_chars hformed]) hspelled
    rw [hk] at hj
    cases hj
  | some kn =>
    obtain ⟨k, n⟩ := kn
    obtain ⟨hshortest, rfl⟩ := shortestWord_of_keywordIn? hformed hk
    have hfit : k.spelling.length ≤ (c :: cs).length := by
      rw [← String.length_toList]
      exact hfits _ hshortest.start
    have htake : ((c :: cs).take k.spelling.length).length = k.spelling.length := by
      rw [List.length_take]
      omega
    by_cases hdef : k = .DEF
    · subst hdef
      have hending : (c :: cs).drop Keyword.DEF.spelling.length = (c :: cs).drop 3 := rfl
      simp only [hending]
      cases hw : defWord? ((c :: cs).drop 3) with
      | none =>
        simp only [htake]
        refine .keyword hlongest hshortest fun _ e he hsame => ?_
        unfold defWord? at hw
        rw [Option.map_eq_none_iff, List.find?_eq_none] at hw
        exact hw e he (decide_eq_true hsame)
      | some k =>
        unfold defWord? at hw
        obtain ⟨e, he, rfl⟩ := Option.map_eq_some_iff.1 hw
        have hending : e.1.toList = defEnding (c :: cs) := by
          simpa [defEnding] using List.find?_some he
        exact .longer hlongest hshortest (List.mem_of_find?_eq_some he) hending
    · split
      · rename_i m hm
        exact absurd (Prod.mk.inj (Option.some.inj hm)).1 hdef
      · rename_i hm
        obtain ⟨rfl, rfl⟩ := Prod.mk.inj (Option.some.inj hm)
        rw [htake]
        exact .keyword hlongest hshortest fun h => absurd h hdef
      · rename_i hm
        cases hm

/-- The characters that a word takes are its spelling, in capitals. -/
theorem WordAt.map_toUpper_keyword {k : Keyword} {n : Nat} (h : WordAt text (.keyword k) n)
    (hk : k ∉ defWords.map Prod.snd) : (text.take n).map Char.toUpper = k.spelling.toList := by
  cases h with
  | @keyword r k run word alone =>
    obtain ⟨rest, rfl, -⟩ := run.longest
    rw [← String.length_toList]
    have hstart := List.prefix_iff_eq_take.1 word.start
    have hlen := word.start.length_le
    rw [← map_toUpper_chars run.formed] at hstart hlen
    rw [List.length_map] at hlen
    rw [List.take_append_of_le_length hlen, List.map_take, ← hstart]
  | longer run word mem ending => exact absurd (List.mem_map_of_mem mem) hk

theorem WordAt.map_toUpper_name {kind : NameKind} {name : String} {n : Nat}
    (h : WordAt text (.name kind name) n) :
    (text.take n).map Char.toUpper = name.toList := by
  cases h with
  | @name r run free =>
    obtain ⟨rest, rfl, -⟩ := run.longest
    rw [List.take_left, map_toUpper_chars run.formed, String.toList_ofList]

/-! ## Places in a line -/

/-- The characters in the columns of a token. -/
def typed (line : List Char) (t : Token) : List Char :=
  (line.drop (t.column - 1)).take (t.stop - t.column)

/-- The characters are blanks and tabs. -/
def AllBlank (cs : List Char) : Prop :=
  ∀ c ∈ cs, c = ' ' ∨ c = '\t'

/-- A token that stands in a line: it has the text of its columns, a name in capitals, and if it is
a word, it is the one that stands there. -/
structure Placed (line : List Char) (t : Token) : Prop where
  first : 1 ≤ t.column
  order : t.column ≤ t.stop
  last : t.stop ≤ line.length + 1
  text : t.text.toList = typed line t ∨
    (∃ kind name, t.kind = .name kind name) ∧ t.text.toList = (typed line t).map Char.toUpper
  word : (∃ kind name, t.kind = .name kind name) ∨ (∃ k, t.kind = .keyword k) →
    WordAt (line.drop (t.column - 1)) t.kind (t.stop - t.column)

/-- A token of a line as it is read: one word, number, string or sign, or the two words of a jump
with the blanks between them. -/
inductive Covers (line : List Char) : Token → Prop where
  | lone {t : Token} (placed : Placed line t) : Covers line t
  | jump {first second : Token} {k : Keyword} {gap : List Char} (first_placed : Placed line first)
      (second_placed : Placed line second) (order : first.stop ≤ second.column)
      (joined : joined? first second = some k)
      (chars : typed line ⟨.keyword k, first.column, second.stop, k.spelling⟩ =
        typed line first ++ gap ++ typed line second)
      (blank : AllBlank gap)
      (text : k.spelling.toList = (typed line first ++ typed line second).map Char.toUpper) :
      Covers line ⟨.keyword k, first.column, second.stop, k.spelling⟩

/-- Tokens that cover a line from a column on; only blanks and tabs stand between them and behind
the last. -/
inductive Tiles (line : List Char) (P : Token → Prop) : Nat → List Token → Prop where
  | done {column : Nat} (gap : AllBlank (line.drop (column - 1))) : Tiles line P column []
  | token {column : Nat} {t : Token} {ts : List Token} (order : column ≤ t.column)
      (gap : AllBlank ((line.drop (column - 1)).take (t.column - column))) (covered : P t)
      (rest : Tiles line P t.stop ts) :
      Tiles line P column (t :: ts)

variable {line before chars rest : List Char} {column : Nat} {ts : List Token} {P : Token → Prop}

theorem Tiles.touch {t : Token} (covered : P t) (rest : Tiles line P t.stop ts) :
    Tiles line P t.column (t :: ts) :=
  .token le_rfl (by simp [AllBlank]) covered rest

/-- A blank in front of what is covered. -/
theorem Tiles.blank (h : Tiles line P (column + 1) ts) (hcolumn : 1 ≤ column)
    (hline : line.drop (column - 1) = c :: cs) (hc : c = ' ' ∨ c = '\t') :
    Tiles line P column ts := by
  have hcs : line.drop column = cs := by
    rw [show column = column - 1 + 1 by omega, ← List.drop_drop, hline]
    rfl
  cases h with
  | done gap =>
    rw [Nat.add_sub_cancel, hcs] at gap
    refine .done ?_
    rw [hline]
    rintro d (_ | ⟨_, hd⟩)
    · exact hc
    · exact gap d hd
  | @token _ t ts order gap covered rest =>
    rw [Nat.add_sub_cancel, hcs] at gap
    refine .token (by omega) ?_ covered rest
    rw [hline, show t.column - column = t.column - (column + 1) + 1 by omega, List.take_succ_cons]
    rintro d (_ | ⟨_, hd⟩)
    · exact hc
    · exact gap d hd

theorem length_of_text {p : Prop} {s : String}
    (htext : s.toList = chars ∨ p ∧ s.toList = chars.map Char.toUpper) :
    s.length = chars.length := by
  rw [← String.length_toList]
  rcases htext with h | ⟨-, h⟩ <;> simp [h]

/-- A token that is put where its characters stand, behind others that are read in the same step. -/
theorem placed_ofText {kind : TokenKind} {s : String} (hcolumn : 1 ≤ column)
    (hline : line.drop (column - 1) = before ++ (chars ++ rest)) (hne : before ++ chars ≠ [])
    (htext : s.toList = chars ∨ (∃ k name, kind = .name k name) ∧ s.toList = chars.map Char.toUpper)
    (hword : (∃ k name, kind = .name k name) ∨ (∃ k, kind = .keyword k) →
      WordAt (chars ++ rest) kind chars.length) :
    Placed line (.ofText kind (column + before.length) s) := by
  have hlength := length_of_text htext
  have hdrop : line.drop (column + before.length - 1) = chars ++ rest := by
    rw [show column + before.length - 1 = column - 1 + before.length by omega, ← List.drop_drop,
      hline, List.drop_left]
  have hwhole := congrArg List.length hline
  have hpos := List.length_pos_of_ne_nil hne
  simp only [List.length_drop, List.length_append] at hwhole hpos
  have htyped : typed line (.ofText kind (column + before.length) s) = chars := by
    simp only [typed, Token.ofText, hdrop, hlength, Nat.add_sub_cancel_left, List.take_left]
  refine ⟨by simp only [Token.ofText]; omega, by simp [Token.ofText],
    ?_, by rw [htyped]; exact htext, fun h => ?_⟩
  · simp only [Token.ofText, hlength]
    omega
  · simp only [Token.ofText, hdrop, hlength, Nat.add_sub_cancel_left]
    exact hword h

/-- One token in front of the rest of a line. -/
theorem Tiles.cons_ofText {kind : TokenKind} {s : String} (hcolumn : 1 ≤ column)
    (hline : line.drop (column - 1) = chars ++ rest) (hne : chars ≠ [])
    (htext : s.toList = chars ∨ (∃ k name, kind = .name k name) ∧ s.toList = chars.map Char.toUpper)
    (hword : (∃ k name, kind = .name k name) ∨ (∃ k, kind = .keyword k) →
      WordAt (chars ++ rest) kind chars.length)
    (htiles : Tiles line (Placed line) (column + chars.length) ts) :
    Tiles line (Placed line) column (.ofText kind column s :: ts) := by
  have hplaced : Placed line (.ofText kind column s) :=
    @placed_ofText line [] chars rest column kind s hcolumn hline hne htext hword
  have hlength := length_of_text htext
  exact .touch hplaced (by simpa [Token.ofText, hlength] using htiles)

/-- Two tokens that touch; the second is neither a name nor a reserved word. -/
theorem Tiles.cons_cons_ofText {kind kind' : TokenKind} {s s' : String} {more : List Char}
    (hcolumn : 1 ≤ column) (hline : line.drop (column - 1) = chars ++ (more ++ rest))
    (hne : chars ≠ []) (htext : s.toList = chars) (hword : (∃ k name, kind = .name k name) ∨
      (∃ k, kind = .keyword k) →
      WordAt (chars ++ (more ++ rest)) kind chars.length)
    (htext' : s'.toList = more)
    (hkind' : ¬ ((∃ k name, kind' = .name k name) ∨ (∃ k, kind' = .keyword k)))
    (htiles : Tiles line (Placed line) (column + chars.length + more.length) ts) :
    Tiles line (Placed line) column
      (.ofText kind column s :: .ofText kind' (column + chars.length) s' :: ts) := by
  refine .cons_ofText hcolumn hline hne (.inl htext) hword ?_
  have hplaced : Placed line (.ofText kind' (column + chars.length) s') :=
    placed_ofText hcolumn hline (by simp [hne]) (.inl htext') fun h => absurd h hkind'
  refine .touch hplaced ?_
  have hlength : s'.length = more.length := by rw [← String.length_toList, htext']
  simpa [Token.ofText, hlength] using htiles

theorem length_of_drop (hcolumn : 1 ≤ column) (hline : line.drop (column - 1) = c :: cs) :
    line.length + 1 = column + (c :: cs).length := by
  have hlength := congrArg List.length hline
  rw [List.length_drop] at hlength
  have hpos : 0 < (c :: cs).length := by simp
  omega

theorem WordAt.pos {kind : TokenKind} {n : Nat} (h : WordAt (c :: cs) kind n) : 0 < n := by
  cases h with
  | @keyword r k run word alone =>
    rw [← String.length_toList]
    exact List.length_pos_of_ne_nil (spelling_ne_nil k)
  | longer run word mem ending => simp
  | name run free => exact List.length_pos_of_ne_nil run.formed.chars_ne_nil

/-- A name is given in capitals, and any other word as it is typed. -/
theorem WordAt.wordText {kind : TokenKind} {n : Nat} (h : WordAt text kind (text.take n).length) :
    (Lexer.wordText kind (text.take n)).toList = text.take n ∨ (∃ k name, kind = .name k name) ∧
      (Lexer.wordText kind (text.take n)).toList = (text.take n).map Char.toUpper := by
  have htake : text.take (text.take n).length = text.take n := by
    rw [List.length_take, ← List.take_take, List.take_length]
  unfold Lexer.wordText
  split
  · rename_i k name
    refine .inr ⟨⟨k, name, rfl⟩, ?_⟩
    rw [← htake, h.map_toUpper_name]
  · exact .inl (by simp)

theorem length_keyword_le (hc : c.isAlpha = true) {k : Keyword} {n : Nat}
    (hword : word (c :: cs) = (.keyword k, n)) (hk : k ∉ defWords.map Prod.snd) :
    n ≤ (c :: cs).length := by
  obtain ⟨j, hj, -, hfits⟩ | ⟨r, rest, hformed, hcs, hstop, hfree⟩ := @word_cases c cs hc
  · rw [hword] at hj
    cases hj
    exact hfits hk
  · rw [hcs, word_name hformed hfree hstop] at hword
    cases hword

/-- A word, with the text that belongs to it. -/
theorem tiles_word (hc : c.isAlpha = true) (hcolumn : 1 ≤ column)
    (hline : line.drop (column - 1) = c :: cs)
    (htiles : Tiles line (Placed line)
      (min (column + 1 + (wordLexeme column (c :: cs)).more) (line.length + 1)) ts) :
    Tiles line (Placed line) column ((wordLexeme column (c :: cs)).tokens ++ ts) := by
  have hword := @wordAt_word c cs hc
  have hpos := hword.pos
  have hend := length_of_drop hcolumn hline
  have hfits := fun k n => @length_keyword_le c cs hc k n
  rcases hw : word (c :: cs) with ⟨kind, n⟩
  generalize c :: cs = text at *
  rw [hw] at hword hpos
  have hlength : (text.take n).length = min n text.length := List.length_take
  have hne : text.take n ≠ [] := List.ne_nil_of_length_pos hpos
  rw [hlength] at hpos
  unfold wordLexeme at htiles ⊢
  simp only [hw] at htiles ⊢
  split at htiles
  · -- a remark takes the rest of the line
    have hn : n ≤ text.length := hfits .REM n hw (by decide)
    have hafter : column + n = column + (text.take n).length := by omega
    have hremark : text = text.take n ++ (text.drop n ++ []) := by simp
    simp only [hafter]
    refine .cons_cons_ofText hcolumn (hline.trans hremark) hne (by simp [wordText]) (fun _ => ?_)
      (by simp) (by simp) ?_
    · rw [← hremark]
      exact hword
    · rw [show column + (text.take n).length + (text.drop n).length =
        min (column + 1 + (text.length - 1)) (line.length + 1) by rw [List.length_drop]; omega]
      exact htiles
  · -- DATA items run to a colon or to the end
    have hn : n ≤ text.length := hfits .DATA n hw (by decide)
    have hafter : column + n = column + (text.take n).length := by omega
    obtain ⟨rest, hrun, -, -⟩ := dataRun_append_self false (text.drop n)
    have hdata : text = text.take n ++ (dataRun false (text.drop n) ++ rest) := by
      rw [← hrun, List.take_append_drop]
    have hrest := congrArg List.length hdata
    rw [List.length_append, List.length_append] at hrest
    simp only [hafter]
    refine .cons_cons_ofText hcolumn (hline.trans hdata) hne (by simp [wordText]) (fun _ => ?_)
      (by simp) (by simp) ?_
    · rw [← hdata]
      exact hword
    · rw [show column + (text.take n).length + (dataRun false (text.drop n)).length =
        min (column + 1 + (n + (dataRun false (text.drop n)).length - 1))
        (line.length + 1) by omega]
      exact htiles
  · have hsplit := List.take_append_drop n text
    refine .cons_ofText hcolumn (hline.trans hsplit.symm) hne hword.wordText (fun _ => ?_) ?_
    · rw [hsplit]
      exact hword
    · rw [show column + (text.take n).length = min (column + 1 + (n - 1))
        (line.length + 1) by omega]
      exact htiles

/-! ## Reading a line -/

theorem not_word_of_sign? {kind : TokenKind} (h : sign? c = some kind) :
    ¬ ((∃ k name, kind = .name k name) ∨ ∃ k, kind = .keyword k) := by
  unfold sign? at h
  split at h
  case h_16 => cases h
  all_goals
    cases h
    simp

/-- One step of the reading puts its tokens in front of those that are read behind them. -/
theorem tiles_lexeme {ending : Nat} {found : Lexeme} (h : lexeme column ending c cs = .ok found)
    (hcolumn : 1 ≤ column) (hline : line.drop (column - 1) = c :: cs)
    (htiles : Tiles line (Placed line) (min (column + 1 + found.more) (line.length + 1)) ts) :
    Tiles line (Placed line) column (found.tokens ++ ts) := by
  cases hc : c.isAlpha with
  | true =>
    rw [lexeme_word hc] at h
    cases h
    exact tiles_word hc hcolumn hline htiles
  | false =>
    have hend := length_of_drop hcolumn hline
    have hfound := lexeme_found h
    have hhead : ∀ d ∈ (c :: cs).head?, d.toUpper.isAlpha = false := by
      rintro d ⟨⟩
      rw [Char.isAlpha_toUpper_eq_isAlpha, hc]
    have hat : ∀ stop, stop = min (column + 1 + found.more) (line.length + 1) →
        Tiles line (Placed line) stop ts :=
      fun stop hstop => hstop ▸ htiles
    clear htiles h
    generalize c :: cs = text at *
    rw [hend] at hat
    cases hfound with
    | @number w v rest formed finished value stop =>
      obtain ⟨d, ds, hw, -⟩ := formed.head
      refine .cons_ofText hcolumn hline (by simp [hw]) (.inl (by simp)) (by simp) ?_
      exact hat _ (by simp only [hw, List.length_cons, List.length_append]; omega)
    | @string body rest inside =>
      have hquoted : '"' :: (body ++ '"' :: rest) = ('"' :: (body ++ ['"'])) ++ rest := by simp
      refine .cons_ofText hcolumn (hline.trans hquoted) (by simp) (.inl (by simp)) (by simp) ?_
      exact hat _ (by simp only [List.length_cons, List.length_append, List.length_nil]; omega)
    | @name r rest formed free stop =>
      obtain ⟨d, ds, hr⟩ := List.exists_cons_of_ne_nil formed.letter
      have := hhead d (by simp [Run.chars, hr])
      rw [Char.isAlpha_toUpper_eq_isAlpha, formed.letters d (by simp [hr])] at this
      cases this
    | @keyword k d ds head plain =>
      obtain ⟨e, es, hk, he⟩ := spelling_head k
      have := hhead d rfl
      rw [hk, List.head?_cons, Option.some.injEq] at head
      rw [← head, he] at this
      cases this
    | data head fits =>
      have := hhead _ rfl
      rw [head] at this
      cases this
    | rem head fits =>
      have := hhead _ rfl
      rw [head] at this
      cases this
    | @blank d ds blank =>
      exact (hat _ (by simp only [List.length_cons]; omega)).blank hcolumn hline blank
    | @apostrophe ds =>
      have hremark : '\'' :: ds = ['\''] ++ (ds ++ []) := by simp
      refine .cons_cons_ofText hcolumn (hline.trans hremark) (by simp) (by simp) (by simp) (by simp)
        (by simp) ?_
      exact hat _ (by simp only [List.length_cons, List.length_nil]; omega)
    | @sign d ds kind sign stop =>
      have hkind := not_word_of_sign? sign
      refine .cons_ofText hcolumn (hline.trans List.singleton_append.symm) (by simp)
        (.inl (by simp))
        (fun h => absurd h hkind) ?_
      exact hat _ (by simp only [List.length_cons, List.length_nil]; omega)
    | @relation d e ds r pair =>
      have hpair : d :: e :: ds = [d, e] ++ ds := rfl
      refine .cons_ofText hcolumn (hline.trans hpair) (by simp) (.inl (by simp)) (by simp) ?_
      exact hat _ (by simp only [List.length_cons, List.length_nil]; omega)

/-- **The tokens that are read from a line tile it.** -/
theorem tiles_scan (h : scan column cs = .ok ts) (hcolumn : 1 ≤ column)
    (hline : line.drop (column - 1) = cs) :
    Tiles line (Placed line) (min column (line.length + 1)) ts := by
  induction column, cs using scan.induct generalizing ts with
  | case1 column =>
    rw [scan] at h
    cases h
    rw [List.drop_eq_nil_iff] at hline
    refine .done ?_
    rw [List.drop_eq_nil_of_le (by omega)]
    simp [AllBlank]
  | case2 column c cs ih =>
    have hend := length_of_drop hcolumn hline
    rw [Nat.min_eq_left (by simp only [List.length_cons] at hend; omega)]
    rw [scan] at h
    cases hfound : lexeme column (column + 1 + cs.length) c cs with
    | error e => rw [hfound] at h; cases h
    | ok found =>
      rw [hfound] at h
      cases hrest : scan (column + 1 + found.more) (cs.drop found.more) with
      | error e => simp [bind, Except.bind, hrest] at h
      | ok rest =>
        simp only [bind, Except.bind, hrest] at h
        cases h
        have hdrop : line.drop (column + 1 + found.more - 1) = cs.drop found.more := by
          rw [show column + 1 + found.more - 1 = column - 1 + (found.more + 1) by omega,
            ← List.drop_drop, hline, List.drop_succ_cons]
        exact tiles_lexeme hfound hcolumn hline (ih found hrest (by omega) hdrop)

/-! ## Jumps of two words -/

/-- A token that makes a jump is read as the first word of it, and what follows as the second. -/
theorem covers_jump {first second : Token} {k : Keyword} (hjoined : joined? first second = some k)
    (hfirst : Placed line first) (hsecond : Placed line second)
    (horder : first.stop ≤ second.column)
    (hgap : AllBlank ((line.drop (first.stop - 1)).take (second.column - first.stop))) :
    Covers line ⟨.keyword k, first.column, second.stop, k.spelling⟩ := by
  obtain ⟨hgo, hword⟩ := joined?_eq_some hjoined
  have hname := hfirst.word (.inl ⟨_, _, hgo⟩)
  rw [hgo] at hname
  refine .jump hfirst hsecond horder hjoined ?_ hgap ?_
  · have := hfirst.first
    have := hfirst.order
    have := hsecond.order
    unfold typed
    simp only
    rw [show second.stop - first.column = first.stop - first.column + (second.column - first.stop) +
        (second.stop - second.column) by
        omega, List.take_add, List.take_add, List.drop_drop, List.drop_drop]
    congr 4 <;> omega
  · rw [List.map_append, typed, hname.map_toUpper_name, typed]
    rcases hword with ⟨hto, rfl⟩ | ⟨hsub, rfl⟩
    · have hword := hsecond.word (.inr ⟨_, hto⟩)
      rw [hto] at hword
      rw [hword.map_toUpper_keyword (by decide)]
      decide
    · have hword := hsecond.word (.inl ⟨_, _, hsub⟩)
      rw [hsub] at hword
      rw [hword.map_toUpper_name]
      decide

/-- **The tokens of a line tile it after GO TO has become one token.** -/
theorem Tiles.joinJumps (h : Tiles line (Placed line) column ts) :
    Tiles line (Covers line) column (joinJumps ts) := by
  induction ts using Lexer.joinJumps.induct generalizing column with
  | case1 first second rest k hk ih =>
    cases h with
    | token order gap covered rest =>
      cases rest with
      | token order' gap' covered' rest' =>
        rw [Lexer.joinJumps, hk]
        exact .token order gap (covers_jump hk covered covered' order' gap') (ih rest')
  | case2 first second rest hk ih =>
    rw [Lexer.joinJumps, hk]
    cases h with
    | token order gap covered rest => exact .token order gap (.lone covered) (ih rest)
  | case3 ts hts =>
    cases h with
    | done gap => exact .done gap
    | @token _ t us order gap covered rest =>
      cases rest with
      | done gap' => exact .token order gap (.lone covered) (.done gap')
      | token => exact absurd rfl (hts _ _ _)

/-! ## Lines -/

theorem Covers.bounds {t : Token} (h : Covers line t) :
    1 ≤ t.column ∧ t.column ≤ t.stop ∧ t.stop ≤ line.length + 1 := by
  cases h with
  | lone placed => exact ⟨placed.first, placed.order, placed.last⟩
  | jump first second order =>
    have := first.order
    have := second.order
    exact ⟨first.first, by simp only; omega, second.last⟩

theorem Tiles.forall_mem (h : Tiles line P column ts) : ∀ t ∈ ts, P t := by
  induction h with
  | done gap => simp
  | token order gap covered rest ih => exact List.forall_mem_cons.2 ⟨covered, ih⟩

theorem Tiles.ordered (h : Tiles line (Covers line) column ts) :
    (∀ t ∈ ts, column ≤ t.column) ∧ ts.Pairwise fun t u => t.stop ≤ u.column := by
  induction h with
  | done gap => simp
  | token order gap covered rest ih =>
    have := covered.bounds
    refine ⟨List.forall_mem_cons.2 ⟨order, fun u hu => ?_⟩, List.pairwise_cons.2 ih⟩
    have := ih.1 u hu
    omega

/-- What no token covers is blank. -/
theorem Tiles.blank_of_uncovered {body : List Char} (h : Tiles body P column ts) {i : Nat}
    (hi : column ≤ i + 1) (hc : body[i]? = some c)
    (hout : ∀ t ∈ ts, ¬ (t.column ≤ i + 1 ∧ i + 1 < t.stop)) : c = ' ' ∨ c = '\t' := by
  have hdrop : ∀ column, column ≤ i + 1 → (body.drop (column - 1))[i - (column - 1)]? = some c := by
    intro column hi
    rw [List.getElem?_drop, Nat.add_sub_cancel' (by omega), hc]
  induction h with
  | done gap => exact gap c (List.mem_of_getElem? (hdrop _ hi))
  | @token column t ts order gap covered rest ih =>
    obtain ⟨hfirst, hrest⟩ := List.forall_mem_cons.1 hout
    by_cases hbefore : i + 1 < t.column
    · refine gap c (List.mem_of_getElem? (i := i - (column - 1)) ?_)
      rw [List.getElem?_take_of_lt (by omega)]
      exact hdrop _ hi
    · exact ih (by omega) hrest

/-- **The tokens of a text tile its line.** They are in order and do not overlap, they lie within
the line, and only blanks and tabs are left out, apart from the carriage returns and line feeds
behind the line. Each token has the text of its columns, a name in capitals, and a jump of two words
has both of them and the blanks between; and each word is the shortest start of its run that is a
reserved word, or the whole run. -/
theorem tokenize_tiles (h : tokenize cs = .ok ts) :
    ∃ body ending, cs = body ++ ending ∧ (∀ c ∈ ending, isReturn c = true) ∧
      ts.Pairwise (fun t u => t.stop ≤ u.column) ∧
      (∀ t ∈ ts, 1 ≤ t.column ∧ t.column ≤ t.stop ∧ t.stop ≤ body.length + 1) ∧
      (∀ i c, body[i]? = some c → (∀ t ∈ ts, ¬ (t.column ≤ i + 1 ∧ i + 1 < t.stop)) →
        c = ' ' ∨ c = '\t') ∧
      ∀ t ∈ ts, Covers body t := by
  obtain ⟨ending, hcs, hending⟩ := Text.exists_append_dropEnd isReturn cs
  unfold tokenize at h
  cases hscan : scan 1 (Text.dropEnd isReturn cs) with
  | error e => rw [hscan] at h; cases h
  | ok us =>
    rw [hscan] at h
    cases h
    have htiles := (tiles_scan hscan le_rfl rfl).joinJumps
    rw [Nat.min_eq_left (by omega)] at htiles
    have hcovers := htiles.forall_mem
    exact ⟨_, ending, hcs, hending, htiles.ordered.2, fun t ht => (hcovers t ht).bounds,
      fun i c hc hout => htiles.blank_of_uncovered (by omega) hc hout, hcovers⟩

/-- The columns of the tokens of a text. -/
def columns? (cs : List Char) : Option (List (Nat × Nat)) :=
  (tokenize cs).toOption.map fun ts => ts.map fun t => (t.column, t.stop)

theorem exists_of_columns? {columns : List (Nat × Nat)} (h : columns? cs = some columns) :
    ∃ ts, tokenize cs = .ok ts ∧ ts.map (fun t => (t.column, t.stop)) = columns := by
  unfold columns? at h
  cases hts : tokenize cs with
  | error e => rw [hts] at h; cases h
  | ok ts =>
    rw [hts] at h
    exact ⟨ts, rfl, Option.some.inj h⟩

/-- A jump of two words, with the blanks between them, and a name. -/
theorem tokenize_tiles_goTo : ∃ ts, tokenize "go  to x1".toList = .ok ts ∧
    ts.map (fun t => (t.column, t.stop)) = [(1, 7), (8, 10)] ∧
      ∀ t ∈ ts, Covers "go  to x1".toList t := by
  obtain ⟨ts, hts, hcolumns⟩ := @exists_of_columns? "go  to x1".toList [(1, 7), (8, 10)] (by cbv)
  obtain ⟨body, ending, hcs, hending, -, -, -, hcovers⟩ := tokenize_tiles hts
  have hnone : ("go  to x1".toList.any isReturn) = false := by decide
  obtain rfl : ending = [] := List.eq_nil_iff_forall_not_mem.2 fun c hc => by
    have hany : ("go  to x1".toList.any isReturn) = true :=
      List.any_eq_true.2 ⟨c, by rw [hcs]; exact List.mem_append_right _ hc, hending c hc⟩
    rw [hnone] at hany
    cases hany
  rw [List.append_nil] at hcs
  exact ⟨ts, hts, hcolumns, hcs ▸ hcovers⟩

/-- The line feed behind a line is in no token, and it is neither a blank nor a tab. -/
theorem tokenize_leaves_lineFeed : ∃ ts, tokenize "PRINT\n".toList = .ok ts ∧
    "PRINT\n".toList[5]? = some '\n' ∧
    ∀ t ∈ ts, ¬ (t.column ≤ 6 ∧ 6 < t.stop) := by
  obtain ⟨ts, hts, hcolumns⟩ := @exists_of_columns? "PRINT\n".toList [(1, 6)] (by cbv)
  refine ⟨ts, hts, by decide, fun t ht => ?_⟩
  have hmem : (t.column, t.stop) ∈ [(1, 6)] :=
    hcolumns ▸ List.mem_map_of_mem (f := fun t => (t.column, t.stop)) ht
  simp only [List.mem_singleton, Prod.mk.injEq] at hmem
  omega

end LineBasic.Lexer
