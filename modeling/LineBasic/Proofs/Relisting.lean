import Mathlib
import LineBasic.Proofs.Lexed

/-!
# Reading a listing

The listing of tokens that keep apart is read as the same tokens again, each in its place in the
listing.

* `relisted`: the tokens of a listing. A question mark has become PRINT, and DATA items take in the
  blank that the listing puts in front of them.
* `scan_lineChars`: the listing is read as these tokens.
* `lineChars_relisted`: their listing is the same text.
-/

namespace LineBasic.Listing

/-- What the listing of a token is read as. -/
def listedKind : TokenKind → TokenKind
  | .question => .keyword .PRINT
  | kind => kind

/-- The number of blanks between a token and those behind it. -/
def nextGap (t : Token) : List Token → Nat
  | [] => 0
  | u :: _ => gapLength t u

/-- The token as it is read in the listing, where `gap` blanks from the column on stand in front of
it. -/
def relistedToken (column gap : Nat) (t : Token) : Token :=
  match t.kind with
  | .dataText s =>
    .ofText (.dataText (String.ofList (List.replicate gap ' ' ++ s.toList))) column
      (String.ofList (List.replicate gap ' ' ++ s.toList))
  | kind => .ofText (listedKind kind) (column + gap) (spelling t)

/-- The tokens as they are read in their listing. -/
def relisted (column gap : Nat) : List Token → List Token
  | [] => []
  | t :: ts =>
    relistedToken column gap t :: relisted (relistedToken column gap t).stop (nextGap t ts) ts

theorem tailChars_eq (t : Token) (ts : List Token) :
    tailChars t ts = List.replicate (nextGap t ts) ' ' ++ lineChars ts := by
  cases ts with
  | nil => rfl
  | cons u us => rw [tailChars_cons, gap_toList]; rfl

theorem chars_number {t : Token} {v : Value} (h : t.kind = .number v) :
    chars t = t.text.toList.flatMap Text.capital := by
  simp [chars, spelling, h, Text.capitals]

theorem chars_keyword {t : Token} {k : Keyword} (h : t.kind = .keyword k) :
    chars t = k.spelling.toList := by
  simp [chars, spelling, h]

theorem listedKind_eq {kind : TokenKind} (h : kind ≠ .question) : listedKind kind = kind := by
  unfold listedKind
  split
  · exact absurd rfl h
  · rfl

theorem ofList_chars (t : Token) : String.ofList (chars t) = spelling t := String.ofList_toList

theorem relistedToken_eq {column gap : Nat} {t : Token} (h : ∀ s, t.kind ≠ .dataText s) :
    relistedToken column gap t = .ofText (listedKind t.kind) (column + gap) (spelling t) := by
  unfold relistedToken
  split
  · exact absurd (by assumption) (h _)
  · rfl

theorem relistedToken_keyword {column gap : Nat} {t : Token} {k : Keyword}
    (h : t.kind = .keyword k) :
    relistedToken column gap t = .ofText (.keyword k) (column + gap) k.spelling := by
  simp [relistedToken, listedKind, spelling, h]

theorem relistedToken_data {column gap : Nat} {t : Token} {s : String} (h : t.kind = .dataText s) :
    relistedToken column gap t =
      .ofText (.dataText (String.ofList (List.replicate gap ' ' ++ s.toList))) column
        (String.ofList (List.replicate gap ' ' ++ s.toList)) := by
  simp [relistedToken, h]

theorem relistedToken_remark {column gap : Nat} {t : Token} {s : String} (h : t.kind = .remark s) :
    relistedToken column gap t = .ofText (.remark s) (column + gap) t.text := by
  simp [relistedToken, listedKind, spelling, h]

@[simp] theorem ofText_stop (kind : TokenKind) (column : Nat) (text : String) :
    (Token.ofText kind column text).stop = column + text.length := rfl

end LineBasic.Listing

namespace LineBasic.Lexer

open Listing
  (chars tailChars lineChars gapLength isWord isFn listedKind nextGap relistedToken relisted)

variable {column : Nat} {c : Char} {cs text rest : List Char} {t : Token} {ts : List Token}

/-! ## One token -/

theorem scan_of_lexeme {found : Lexeme} (h : ∀ ending, lexeme column ending c cs = .ok found) :
    scan column (c :: cs) = (found.tokens ++ ·) <$> scan (column + 1 + found.more)
      (cs.drop found.more) := by
  rw [scan, h]
  rfl

theorem scan_blanks (n : Nat) :
    scan column (List.replicate n ' ' ++ cs) = scan (column + n) cs := by
  induction n generalizing column with
  | zero => rfl
  | succ n ih =>
    rw [List.replicate_succ, List.cons_append, scan_of_lexeme fun _ => lexeme_blank]
    simp only [List.nil_append, List.drop_zero, Nat.add_zero]
    rw [ih, Nat.add_assoc, Nat.add_comm 1 n]
    exact id_map' _

/-- A text of which one token is made, in front of the rest of the line. -/
theorem scan_append {ds : List Char} (htext : text = c :: ds)
    (h : ∀ ending, lexeme column ending c (ds ++ rest) = .ok ⟨[t], text.length - 1⟩) :
    scan column (text ++ rest) = (t :: ·) <$> scan (column + text.length) rest := by
  subst htext
  rw [List.cons_append, scan_of_lexeme h]
  simp only [List.length_cons, Nat.add_sub_cancel, List.drop_left]
  rw [Nat.add_assoc, Nat.add_comm 1]
  rfl

theorem wordLexeme_keyword {k : Keyword} (plain : k ≠ .REM ∧ k ≠ .DATA)
    (hdef : k = .DEF → defWord? rest = none) :
    wordLexeme column (k.spelling.toList ++ rest) =
      ⟨[.ofText (.keyword k) column k.spelling], k.spelling.toList.length - 1⟩ := by
  unfold wordLexeme
  rw [word_keyword hdef]
  simp only [wordText]
  have htake : (k.spelling.toList ++ rest).take k.spelling.length = k.spelling.toList := by
    rw [← String.length_toList, List.take_left]
  rw [htake, String.ofList_toList]
  split
  · rename_i hk
    exact absurd (TokenKind.keyword.inj hk) plain.1
  · rename_i hk
    exact absurd (TokenKind.keyword.inj hk) plain.2
  · rw [String.length_toList]

theorem scan_keyword {k : Keyword} (plain : k ≠ .REM ∧ k ≠ .DATA)
    (hdef : k = .DEF → defWord? rest = none) :
    scan column (k.spelling.toList ++ rest) =
      (.ofText (.keyword k) column k.spelling :: ·) <$> scan
        (column + k.spelling.toList.length) rest := by
  obtain ⟨c, ds, hs, halpha⟩ := spelling_head k
  refine scan_append hs fun ending => ?_
  rw [lexeme_word halpha, ← List.cons_append, ← hs, wordLexeme_keyword plain hdef]

theorem defWord?_eq_none
    (h : ∀ c ∈ rest.head?, ∀ e ∈ defWords, e.1.toList.head? ≠ (Text.capital c).head?) :
    defWord? rest = none := by
  unfold defWord?
  rw [Option.map_eq_none_iff, List.find?_eq_none]
  intro e he heq
  have hne : ∀ e ∈ defWords, e.1.toList ≠ [] := by decide
  rw [decide_eq_true_eq] at heq
  cases rest with
  | nil => exact hne e he heq
  | cons c cs =>
    apply h c rfl e he
    obtain ⟨d, ds, hd⟩ := List.exists_cons_of_ne_nil (Text.capital_ne_nil c)
    rw [heq, List.take_succ_cons, List.flatMap_cons, hd]
    rfl

theorem scan_name {r : Run} (formed : r.Formed) (free : keywordIn? [] r.chars = none)
    (stop : ∀ c ∈ rest.head?, r.extends? c = false) :
    scan column (r.capital.chars ++ rest) =
      (.ofText (.name (nameKind r.capital.chars) (String.ofList r.capital.chars)) column
        (String.ofList r.capital.chars) :: ·) <$> scan (column + r.capital.chars.length) rest := by
  obtain ⟨c, ds, hr⟩ := List.exists_cons_of_ne_nil formed.capital.chars_ne_nil
  have hidem : r.capital.capital = r.capital := by
    simp [Run.capital, Function.comp_def, Char.toUpper_toUpper_eq_toUpper]
  have hfree : keywordIn? [] r.capital.chars = none := by
    rw [← map_toUpper_chars formed, keywordIn?_map_toUpper, free]
  have hword := @word_name rest r.capital formed.capital hfree stop
  rw [hidem] at hword
  have halpha : c.isAlpha = true := by
    obtain ⟨d, es, hl⟩ := List.exists_cons_of_ne_nil formed.capital.letter
    rw [Run.chars, hl] at hr
    obtain rfl : d = c := (List.cons.inj hr).1
    exact formed.capital.letters d (by simp [hl])
  refine scan_append hr fun ending => ?_
  rw [lexeme_word halpha, ← List.cons_append, ← hr]
  unfold wordLexeme
  rw [hword]
  rfl

/-- **A token that stands is read back** from its listed text. -/
theorem scan_stands (h : Stands t rest.head?) :
    scan column (chars t ++ rest) =
      (.ofText (listedKind t.kind) column (Listing.spelling t) :: ·) <$> scan
        (column + (chars t).length) rest := by
  rw [← Listing.ofList_chars]
  cases h with
  | @number w v kind text formed finished value stop =>
    have hchars : chars t = w.capital.chars := by
      rw [Listing.chars_number kind, text, flatMap_capital_chars formed]
    obtain ⟨c, ds, hw, -⟩ := formed.capital.head
    rw [hchars, kind]
    refine scan_append hw fun ending => ?_
    apply lexeme_number formed.capital
    · rw [isUnfinished_capital, finished]
    · rw [value_capital formed, value]
    · intro d hd
      rw [extends?_capital]
      exact stop d hd
    · rw [hw, List.cons_append]
  | @string s kind text inside =>
    have hchars : chars t = '"' :: (s.toList ++ ['"']) := by
      simp [chars, Listing.spelling, kind, text]
    rw [hchars, kind]
    refine scan_append rfl fun ending => ?_
    rw [List.append_assoc, List.singleton_append, lexeme_string inside, String.ofList_toList]
    simp [listedKind]
  | @name r kind formed free stop =>
    have hchars : chars t = r.capital.chars := by simp [chars, Listing.spelling, kind]
    rw [hchars, kind, scan_name formed free stop]
    rfl
  | @keyword k kind plain stop =>
    rw [Listing.chars_keyword kind, kind, scan_keyword plain fun hdef =>
      defWord?_eq_none (stop hdef), String.ofList_toList]
    rfl
  | question kind =>
    have hchars : chars t = Keyword.PRINT.spelling.toList := by simp [chars, Listing.spelling, kind]
    rw [hchars, kind, scan_keyword (by simp) (by simp), String.ofList_toList]
    rfl
  | @sign c kind proper text stop =>
    have hchars : chars t = [c] := by rw [chars, (listed_of_sign? kind proper).1, text]
    rw [hchars]
    refine scan_append rfl fun ending => ?_
    rw [List.nil_append, lexeme_sign kind stop, Listing.listedKind_eq proper]
    rfl
  | @relation c d r kind text pair =>
    have hchars : chars t = [c, d] := by simp [chars, Listing.spelling, kind, text]
    rw [hchars, kind]
    refine scan_append rfl fun ending => ?_
    rw [List.cons_append, List.nil_append, lexeme_relation pair]
    rfl

/-! ## DATA items and remarks -/

theorem dataRun_blanks (n : Nat) (cs : List Char) :
    dataRun false (List.replicate n ' ' ++ cs) = List.replicate n ' ' ++ dataRun false cs := by
  induction n with
  | zero => rfl
  | succ n ih =>
    rw [List.replicate_succ, List.cons_append, dataRun, if_neg (by decide), if_neg (by decide), ih]
    rfl

theorem scan_data {run : List Char} (h : dataRun false (run ++ rest) = run) :
    scan column (Keyword.DATA.spelling.toList ++ (run ++ rest)) =
      ([.ofText (.keyword .DATA) column Keyword.DATA.spelling,
        .ofText (.dataText (String.ofList run)) (column + 4) (String.ofList run)] ++ ·) <$>
      scan (column + 4 + run.length) rest := by
  have hs : Keyword.DATA.spelling.toList = ['D', 'A', 'T', 'A'] := rfl
  have hword : word ('D' :: 'A' :: 'T' :: 'A' :: (run ++ rest)) = (.keyword .DATA, 4) :=
    word_keyword (k := .DATA) (by simp)
  have hfound : ∀ ending, lexeme column ending 'D' ('A' :: 'T' :: 'A' :: (run ++ rest)) =
      .ok ⟨[.ofText (.keyword .DATA) column Keyword.DATA.spelling,
        .ofText (.dataText (String.ofList run)) (column + 4) (String.ofList run)],
        4 + run.length - 1⟩ := by
    intro ending
    rw [lexeme_word (by decide)]
    unfold wordLexeme
    rw [hword]
    simp only [List.drop_succ_cons, List.drop_zero, h]
    rfl
  rw [hs]
  simp only [List.cons_append, List.nil_append]
  rw [scan_of_lexeme hfound]
  have hmore : 4 + run.length - 1 = run.length + 3 := by omega
  simp only [hmore, List.drop_succ_cons, List.drop_left]
  rw [show column + 1 + (run.length + 3) = column + 4 + run.length by omega]
  rfl

theorem scan_rem (cs : List Char) :
    scan column (Keyword.REM.spelling.toList ++ cs) =
      .ok [.ofText (.keyword .REM) column Keyword.REM.spelling,
        .ofText (.remark (String.ofList cs)) (column + 3) (String.ofList cs)] := by
  have hs : Keyword.REM.spelling.toList = ['R', 'E', 'M'] := rfl
  have hword : word ('R' :: 'E' :: 'M' :: cs) = (.keyword .REM, 3) :=
    word_keyword (k := .REM) (by simp)
  have hfound : ∀ ending, lexeme column ending 'R' ('E' :: 'M' :: cs) =
      .ok ⟨[.ofText (.keyword .REM) column Keyword.REM.spelling,
        .ofText (.remark (String.ofList cs)) (column + 3) (String.ofList cs)], cs.length + 2⟩ := by
    intro ending
    rw [lexeme_word (by decide)]
    unfold wordLexeme
    rw [hword]
    rfl
  rw [hs]
  simp only [List.cons_append, List.nil_append]
  rw [scan_of_lexeme hfound]
  simp only [List.drop_succ_cons, List.drop_length]
  rw [scan]
  rfl

theorem scan_apostrophe (cs : List Char) :
    scan column ('\'' :: cs) =
      .ok [.ofText .apostrophe column "'", .ofText (.remark (String.ofList cs)) (column + 1)
        (String.ofList cs)] := by
  rw [scan_of_lexeme fun _ => lexeme_apostrophe]
  simp only [List.drop_length]
  rw [scan]
  rfl

/-! ## Lines -/

/-- DATA items do not stand alone. -/
theorem Stands.ne_dataText {next : Option Char} (h : Stands t next) (s : String) :
    t.kind ≠ .dataText s := by
  cases h with
  | number kind | string kind | name kind | keyword kind | question kind | relation kind =>
    simp [kind]
  | sign kind =>
    unfold sign? at kind
    intro hs
    rw [hs] at kind
    split at kind <;> exact absurd kind (by simp)

/-- A remark stands right behind its mark. -/
theorem lineChars_remark {r m : Token} {s : String} (body : m.kind = .remark s) (text : m.text = s)
    (touch : m.column = r.stop) : gapLength r m = 0 ∧ lineChars [r, m] = chars r ++ s.toList := by
  have hgap : gapLength r m = 0 :=
    Listing.gapLength_eq_zero_iff.mpr ⟨touch.le, fun _ _ => by simp [isWord, body]⟩
  have hm : chars m = s.toList := by simp [chars, Listing.spelling, body, text]
  refine ⟨hgap, ?_⟩
  rw [Listing.lineChars_cons, Listing.tailChars_cons, Listing.gap_toList, hgap,
    Listing.lineChars_cons, hm]
  simp

/-- **The listing of tokens that keep apart is read as these tokens.** -/
theorem scan_lineChars (h : Lexed ts) (gap : Nat) :
    scan column (List.replicate gap ' ' ++ lineChars ts) = .ok (relisted column gap ts) := by
  induction h generalizing column gap with
  | nil =>
    rw [scan_blanks]
    unfold lineChars
    rw [scan]
    rfl
  | @cons t ts stands rest ih =>
    unfold relisted
    rw [scan_blanks, Listing.lineChars_cons, scan_stands stands, Listing.tailChars_eq, ih,
      Listing.relistedToken_eq stands.ne_dataText, chars, String.length_toList]
    rfl
  | @data d x s ts kind items text touch run rest ih =>
    have hx : chars x = s.toList := by simp [chars, Listing.spelling, items, text]
    have hrun : dataRun false ((List.replicate (gapLength d x) ' ' ++ s.toList) ++ tailChars x ts) =
        List.replicate (gapLength d x) ' ' ++ s.toList := by
      rw [List.append_assoc, dataRun_blanks, run _ rfl]
    unfold relisted relisted
    rw [scan_blanks, Listing.lineChars_cons, Listing.chars_keyword kind, Listing.tailChars_cons,
      Listing.gap_toList, Listing.lineChars_cons, hx, ← List.append_assoc (List.replicate _ _),
      scan_data hrun, Listing.tailChars_eq, ih,
      Listing.relistedToken_keyword kind, Listing.relistedToken_data items, Listing.ofText_stop,
      Listing.ofText_stop,
      String.length_ofList]
    rfl
  | @remark r m s kind body text touch =>
    obtain ⟨hgap, hline⟩ := lineChars_remark body text touch
    have hnext : nextGap r [m] = 0 := hgap
    unfold relisted relisted
    rw [scan_blanks, hline, hnext, Listing.relistedToken_remark body, text]
    rcases kind with kind | ⟨kind, mark⟩
    · rw [Listing.chars_keyword kind, scan_rem, Listing.relistedToken_keyword kind,
        String.ofList_toList]
      rfl
    · have hr : chars r = ['\''] := by simp [chars, Listing.spelling, kind, mark]
      have hhead : relistedToken column gap r = .ofText .apostrophe (column + gap) "'" := by
        simp [relistedToken, listedKind, Listing.spelling, kind, mark]
      rw [hr, List.singleton_append, scan_apostrophe, hhead, String.ofList_toList]
      rfl

/-! ## The listing of a listing -/

theorem Writing.capital_capital (w : Writing) : w.capital.capital = w.capital := by
  unfold Writing.capital
  cases w.exponent <;> simp [Char.toUpper_toUpper_eq_toUpper]

/-- What is listed is listed again as it is. -/
theorem chars_relistedToken {next : Option Char} (h : Stands t next) (gap : Nat) :
    chars (relistedToken column gap t) = chars t := by
  rw [Listing.relistedToken_eq h.ne_dataText]
  cases h with
  | @number w v kind text formed finished value stop =>
    simp only [chars, Listing.spelling, Token.ofText, kind, listedKind, Text.capitals,
      String.toList_ofList, text]
    rw [flatMap_capital_chars formed, flatMap_capital_chars formed.capital, w.capital_capital]
  | string kind | name kind | keyword kind | question kind | relation kind =>
    simp [chars, Listing.spelling, Token.ofText, kind, listedKind]
  | @sign c kind proper text stop =>
    rw [Listing.listedKind_eq proper, chars,
      (@listed_of_sign? (.ofText t.kind (column + gap) (Listing.spelling t)) c kind proper).1]
    rfl

theorem isWord_relistedToken (h : ∀ s, t.kind ≠ .dataText s) (gap : Nat) :
    isWord (relistedToken column gap t) = isWord t := by
  rw [Listing.relistedToken_eq h]
  unfold isWord Token.ofText
  cases hk : t.kind <;> rfl

theorem isFn_relistedToken (gap : Nat) : isFn (relistedToken column gap t) = isFn t := by
  unfold isFn relistedToken Token.ofText
  cases hk : t.kind <;> rfl

theorem Lexed.ne_dataText {u : Token} {us : List Token} (h : Lexed (u :: us)) (s : String) :
    u.kind ≠ .dataText s := by
  cases h with
  | cons stands => exact stands.ne_dataText s
  | data kind => simp [kind]
  | remark kind => rcases kind with kind | ⟨kind, -⟩ <;> simp [kind]

/-- The blanks of the listing are there again, and no others. -/
theorem nextGap_relisted {u : Token} (hts : Lexed ts) (hfn : isFn u = isFn t)
    (hword : isWord u = true → isWord t = true) :
    nextGap u (relisted u.stop (nextGap t ts) ts) = nextGap t ts := by
  cases ts with
  | nil => rfl
  | cons v vs =>
    have hv := hts.ne_dataText
    unfold relisted nextGap
    simp only
    cases hn : gapLength t v with
    | succ n =>
      unfold gapLength
      rw [if_pos]
      · rw [Listing.relistedToken_eq hv]
        exact Nat.add_sub_cancel_left _ _
      · rw [Listing.relistedToken_eq hv]
        exact Nat.lt_add_of_pos_right (Nat.succ_pos n)
    | zero =>
      obtain ⟨-, hneed⟩ := Listing.gapLength_eq_zero_iff.mp hn
      refine Listing.gapLength_eq_zero_iff.mpr ⟨?_, fun hf hw => ?_⟩
      · rw [Listing.relistedToken_eq hv]
        exact Nat.le_refl _
      · rw [isWord_relistedToken hv]
        exact hneed (hfn ▸ hf) (hword hw)

theorem tailChars_relisted {u : Token} (hts : Lexed ts) (hfn : isFn u = isFn t)
    (hword : isWord u = true → isWord t = true)
    (hline : ∀ column gap, lineChars (relisted column gap ts) = lineChars ts) :
    tailChars u (relisted u.stop (nextGap t ts) ts) = tailChars t ts := by
  rw [Listing.tailChars_eq, Listing.tailChars_eq, nextGap_relisted hts hfn hword, hline]

/-- **The listing of a listing is the same text.** -/
theorem lineChars_relisted (h : Lexed ts) (column gap : Nat) :
    lineChars (relisted column gap ts) = lineChars ts := by
  induction h generalizing column gap with
  | nil => rfl
  | @cons t ts stands rest ih =>
    unfold relisted
    rw [Listing.lineChars_cons, Listing.lineChars_cons, chars_relistedToken stands,
      tailChars_relisted rest (isFn_relistedToken gap) (fun hw => ?_) ih]
    rwa [isWord_relistedToken stands.ne_dataText] at hw
  | @data d x s ts kind items text touch run rest ih =>
    have hx : chars x = s.toList := by simp [chars, Listing.spelling, items, text]
    unfold relisted relisted
    rw [Listing.relistedToken_keyword kind, Listing.relistedToken_data items]
    set d' := Token.ofText (.keyword .DATA) (column + gap) Keyword.DATA.spelling with hd'
    set run' := List.replicate (nextGap d (x :: ts)) ' ' ++ s.toList with hrun'
    set x' := Token.ofText (.dataText (String.ofList run')) d'.stop (String.ofList run') with hx'
    -- the items take in the blank in front of them, so that no other is needed
    have hword : isWord x' = false := by
      change Listing.joinsWord (String.ofList run') = false
      cases hn : nextGap d (x :: ts) with
      | zero =>
        have hneed := (Listing.gapLength_eq_zero_iff.mp hn).2 (by simp [isFn, kind])
          (by simp [isWord, kind, Keyword.isOperator])
        simpa [hrun', hn, isWord, items] using hneed
      | succ n =>
        rw [hrun', hn, List.replicate_succ]
        unfold Listing.joinsWord
        rw [String.toList_ofList, List.cons_append, List.head?_cons]
        decide
    have hgap : gapLength d' x' = 0 :=
      Listing.gapLength_eq_zero_iff.mpr ⟨Nat.le_refl _, fun _ _ => hword⟩
    have hchars : chars x' = run' := by simp [chars, Listing.spelling, hx', Token.ofText]
    have htail : tailChars x' (relisted x'.stop (nextGap x ts) ts) = tailChars x ts :=
      tailChars_relisted rest (by simp [isFn, hx', Token.ofText, items]) (by simp [hword]) ih
    rw [Listing.lineChars_cons, Listing.tailChars_cons, Listing.gap_toList, hgap,
      Listing.lineChars_cons, htail, Listing.lineChars_cons, Listing.tailChars_cons,
      Listing.gap_toList, Listing.lineChars_cons, hx,
      Listing.chars_keyword kind, Listing.chars_keyword rfl, hchars, hrun']
    simp [nextGap]
  | @remark r m s kind body text touch =>
    obtain ⟨hgap, hline⟩ := lineChars_remark body text touch
    have hnext : nextGap r [m] = 0 := hgap
    have hr : chars (relistedToken column gap r) = chars r := by
      rcases kind with kind | ⟨kind, mark⟩ <;>
        simp [chars, Listing.spelling, relistedToken, listedKind, Token.ofText, kind]
    unfold relisted relisted relisted
    rw [hnext, Listing.relistedToken_remark body, text, (lineChars_remark rfl rfl rfl).2, hline, hr]
    rfl

end LineBasic.Lexer
