import Mathlib
import LineBasic.Proofs.Lexemes
import LineBasic.Token.Listing

/-!
# Tokens that keep apart

What a listing needs of the tokens of a line, so that each is read again where it stands.
`Stands t next` says that the listed text of `t` is read as `t` when the character `next` stands
behind it, and `Lexed` that every token of a list stands in front of the text that the listing puts
behind it.

* `scan_scanned`: the tokens that are read from a text keep apart in its listing.
* `joinJumps_lexed`: so they do after GO TO has become one token.
* `tokenize_apart`: the tokens of a line are `Apart`: they keep apart, and no two of them make a
  jump.
-/

namespace LineBasic.Listing

/-- The characters of a token in a listing. -/
def chars (t : Token) : List Char := (spelling t).toList

/-- The characters that a listing puts behind a token. -/
def tailChars (t : Token) (ts : List Token) : List Char := (pieces t ts).flatMap String.toList

/-- The characters of a line, from its first token on. -/
def lineChars : List Token → List Char
  | [] => []
  | t :: ts => chars t ++ tailChars t ts

theorem lineChars_cons (t : Token) (ts : List Token) :
    lineChars (t :: ts) = chars t ++ tailChars t ts := rfl

@[simp] theorem tailChars_nil (t : Token) : tailChars t [] = [] := rfl

theorem tailChars_cons (t u : Token) (us : List Token) :
    tailChars t (u :: us) = (gap t u).toList ++ lineChars (u :: us) := rfl

/-- The number of blanks between two tokens. -/
def gapLength (previous t : Token) : Nat :=
  if previous.stop < t.column then t.column - previous.stop
  else if !isFn previous && isWord previous && isWord t then 1
  else 0

theorem gap_toList (t u : Token) : (gap t u).toList = List.replicate (gapLength t u) ' ' := by
  unfold gap gapLength
  split
  · simp
  · split <;> rfl

/-- Tokens that touch and need no blank between them. -/
theorem gapLength_eq_zero_iff {t u : Token} :
    gapLength t u = 0 ↔ u.column ≤ t.stop ∧
      (isFn t = false → isWord t = true → isWord u = false) := by
  unfold gapLength
  by_cases h : t.stop < u.column
  · rw [if_pos h]
    omega
  · rw [if_neg h]
    cases isFn t <;> cases isWord t <;> cases isWord u <;> simp <;> omega

end LineBasic.Listing

namespace LineBasic.Lexer

open Listing (chars tailChars lineChars gapLength isWord isFn)

/-- The listed text of the token is read as this token when the character `next`, or nothing, stands
behind it. The tokens of remarks and DATA items do not stand alone. -/
inductive Stands (t : Token) (next : Option Char) : Prop where
  | number {w : Writing} {v : Value} (kind : t.kind = .number v) (text : t.text.toList = w.chars)
      (formed : w.Formed)
      (finished : (w.read []).isUnfinished = false) (value : (w.read []).value = .ok v)
      (stop : ∀ c ∈ next, w.extends? c = false ∧ c ≠ '.')
  | string {s : String} (kind : t.kind = .string s)
      (text : t.text.toList = '"' :: (s.toList ++ ['"']))
      (inside : '"' ∉ s.toList)
  | name {r : Run}
      (kind : t.kind = .name (nameKind r.capital.chars) (String.ofList r.capital.chars))
      (formed : r.Formed) (free : keywordIn? [] r.chars = none)
      (stop : ∀ c ∈ next, r.extends? c = false)
  | keyword {k : Keyword} (kind : t.kind = .keyword k) (plain : k ≠ .REM ∧ k ≠ .DATA)
      (stop : k = .DEF → ∀ c ∈ next, ∀ e ∈ defWords, e.1.toList.head? ≠ (Text.capital c).head?)
  | question (kind : t.kind = .question)
  | sign {c : Char} (kind : sign? c = some t.kind) (proper : t.kind ≠ .question)
      (text : t.text.toList = [c])
      (stop : ∀ d ∈ next, relation? c d = none)
  | relation {c d : Char} {r : Relation} (kind : t.kind = .relation r)
      (text : t.text.toList = [c, d])
      (pair : relation? c d = some r)

/-- Tokens that keep apart in the listing: each stands in front of what the listing puts behind it;
a remark is the last token, and DATA items end at the end of the line or at a colon. -/
inductive Lexed : List Token → Prop where
  | nil : Lexed []
  | cons {t : Token} {ts : List Token} (stands : Stands t (tailChars t ts).head?)
      (rest : Lexed ts) :
      Lexed (t :: ts)
  | data {d x : Token} {s : String} {ts : List Token} (kind : d.kind = .keyword .DATA)
      (items : x.kind = .dataText s)
      (text : x.text = s) (touch : x.column = d.stop)
      (run : ∀ tail : List Char, tail.head? = (tailChars x ts).head? →
        dataRun false (s.toList ++ tail) = s.toList)
      (rest : Lexed ts) : Lexed (d :: x :: ts)
  | remark {r m : Token} {s : String} (kind : r.kind = .keyword .REM ∨ r.kind = .apostrophe ∧
      r.text = "'")
      (body : m.kind = .remark s) (text : m.text = s) (touch : m.column = r.stop) : Lexed [r, m]

/-! ## The first character of a token -/

/-- The characters that a token can begin with that needs no blank beside a word. -/
def jointChars : List Char :=
  ['A', 'O', 'X', 'N', 'M', '<', '>', '=', '+', '-', '*', '/', '^', '\\', '(', ')', ',', ';', ':']

variable {t u : Token} {ts us : List Token} {next : Option Char} {column : Nat} {cs : List Char}

/-- A sign is listed as it is written and needs no blank. -/
theorem listed_of_sign? {c : Char} (h : sign? c = some t.kind) (hq : t.kind ≠ .question) :
    Listing.spelling t = t.text ∧ isWord t = false := by
  unfold sign? at h
  split at h
  case h_10 => exact absurd (Option.some.inj h).symm hq
  case h_16 => exact absurd h (by simp)
  all_goals
    unfold Listing.spelling isWord
    rw [← Option.some.inj h]
    exact ⟨rfl, rfl⟩

theorem mem_jointChars_of_sign? {c : Char} {kind : TokenKind} (h : sign? c = some kind)
    (hq : kind ≠ .question) :
    c ∈ jointChars := by
  have hmem := mem_of_sign? h
  have hne : c ≠ '?' := by
    rintro rfl
    exact hq (Option.some.inj h).symm
  simp only [signChars, jointChars, List.mem_cons, List.not_mem_nil, or_false] at hmem ⊢
  tauto

theorem mem_jointChars_of_relation? {c d : Char} {r : Relation} (h : relation? c d = some r) :
    c ∈ jointChars := by
  have hmem := (mem_of_relation? h).1
  simp only [jointChars, List.mem_cons, List.not_mem_nil, or_false] at hmem ⊢
  tauto

/-- The text of a token that stands is not empty, and without need of a blank it begins with one of
the `jointChars`. -/
theorem Stands.head (h : Stands t next) :
    ∃ c ds, chars t = c :: ds ∧ (isWord t = false → c ∈ jointChars) := by
  unfold chars Listing.spelling isWord
  cases h with
  | number kind text formed finished value stop =>
    obtain ⟨c, ds, hw, -⟩ := formed.capital.head
    refine ⟨c, ds, ?_, by simp [kind]⟩
    simp only [kind, Text.capitals, String.toList_ofList, text]
    rw [flatMap_capital_chars formed, hw]
  | string kind text inside => exact ⟨'"', _, by simp only [kind]; exact text, by simp [kind]⟩
  | name kind formed free stop =>
    obtain ⟨c, ds, hr⟩ := List.exists_cons_of_ne_nil formed.capital.chars_ne_nil
    exact ⟨c, ds, by simp only [kind, String.toList_ofList, hr], by simp [kind]⟩
  | @keyword k kind plain stop =>
    simp only [kind, Bool.not_eq_false']
    obtain ⟨c, ds, hs⟩ := List.exists_cons_of_ne_nil (spelling_ne_nil k)
    refine ⟨c, ds, hs, fun hw => ?_⟩
    unfold Keyword.isOperator at hw
    split at hw
    case h_6 => exact absurd hw (by simp)
    all_goals
      obtain rfl := (List.cons.inj hs).1
      decide
  | question kind => exact ⟨'P', _, by simp only [kind]; rfl, by simp [kind]⟩
  | sign kind proper text stop =>
    have hl := (listed_of_sign? kind proper).1
    unfold Listing.spelling at hl
    exact ⟨_, _, by rw [hl, text], fun _ => mem_jointChars_of_sign? kind proper⟩
  | relation kind text pair =>
    exact ⟨_, _, by simp only [kind]; exact text, fun _ => mem_jointChars_of_relation? pair⟩

theorem Lexed.head (h : Lexed (u :: us)) :
    ∃ c ds, chars u = c :: ds ∧ (isWord u = false → c ∈ jointChars) := by
  cases h with
  | cons stands rest => exact stands.head
  | data kind items text touch run rest =>
    unfold chars Listing.spelling isWord
    exact ⟨'D', _, by simp only [kind]; rfl, by simp [kind, Keyword.isOperator]⟩
  | remark kind body text touch =>
    unfold chars Listing.spelling isWord
    rcases kind with kind | ⟨kind, mark⟩
    · exact ⟨'R', _, by simp only [kind]; rfl, by simp [kind, Keyword.isOperator]⟩
    · exact ⟨'\'', [], by simp only [kind, mark]; rfl, by simp [kind]⟩

/-! ## What stands behind a token -/

theorem head?_tailChars (h : chars u ≠ []) :
    (tailChars t (u :: us)).head? = if gapLength t u = 0 then (chars u).head? else some ' ' := by
  obtain ⟨c, ds, hu⟩ := List.exists_cons_of_ne_nil h
  have hline : lineChars (u :: us) = c :: (ds ++ tailChars u us) := by
    rw [Listing.lineChars_cons, hu, List.cons_append]
  rw [Listing.tailChars_cons, Listing.gap_toList, hline, hu]
  cases gapLength t u with
  | zero => rfl
  | succ n => rw [if_neg (by simp)]; rfl

/-- What the reading of a text from a column on gives: tokens that keep apart, the first of them not
before the column. If it stands right at the column, it begins with the first character of the text,
but for the question mark. -/
structure Scanned (column : Nat) (cs : List Char) (ts : List Token) : Prop where
  lexed : Lexed ts
  nil : cs = [] → ts = []
  colon : cs.head? = some ':' → ∃ us, ts = .ofText .colon column ":" :: us
  after : ∀ u ∈ ts.head?, column ≤ u.column
  same : ∀ u ∈ ts.head?, u.column = column → u.kind = .question ∨
    (chars u).head? = cs.head?.map Char.toUpper

/-- The listing puts a blank behind a token, or the next token, with its first character in
capitals. -/
theorem Scanned.behind (h : Scanned column cs ts) (hs : t.stop ≤ column) {c : Char}
    (hc : c ∈ (tailChars t ts).head?) :
    c = ' ' ∨ ∃ u ∈ ts.head?,
      (isFn t = false → isWord t = true → isWord u = false ∧ c ∈ jointChars) ∧
      (u.kind = .question ∧ c = 'P' ∨ ∃ d ∈ cs.head?, c = d.toUpper) := by
  cases ts with
  | nil => exact absurd hc (by simp)
  | cons u us =>
    obtain ⟨e, ds, hu, hjoint⟩ := h.lexed.head
    rw [head?_tailChars (by simp [hu])] at hc
    split at hc
    · rename_i hgap
      obtain ⟨htouch, hword⟩ := Listing.gapLength_eq_zero_iff.mp hgap
      obtain rfl : e = c := by simpa [hu] using hc
      refine Or.inr ⟨u, rfl, fun hf hw => ⟨hword hf hw, hjoint (hword hf hw)⟩, ?_⟩
      have hcolumn : u.column = column := Nat.le_antisymm (htouch.trans hs) (h.after u rfl)
      rcases h.same u rfl hcolumn with hq | hhead
      · refine Or.inl ⟨hq, ?_⟩
        have hp : chars u = Keyword.PRINT.spelling.toList := by simp [chars, Listing.spelling, hq]
        exact (List.cons.inj (hu.symm.trans hp)).1
      · rw [hu] at hhead
        obtain ⟨d, hd, hde⟩ := Option.map_eq_some_iff.mp hhead.symm
        exact Or.inr ⟨d, hd, hde.symm⟩
    · exact Or.inl (by simpa using hc.symm)

/-- Behind a word the next token stands only if it needs no blank. -/
theorem Scanned.behind_word (h : Scanned column cs ts) (hs : t.stop ≤ column) (hf : isFn t = false)
    (hw : isWord t = true) {c : Char} (hc : c ∈ (tailChars t ts).head?) :
    c = ' ' ∨ c ∈ jointChars ∧ ∃ d ∈ cs.head?, c = d.toUpper := by
  rcases h.behind hs hc with hb | ⟨u, -, hword, ⟨hq, -⟩ | hd⟩
  · exact Or.inl hb
  · have hu := (hword hf hw).1
    unfold isWord at hu
    rw [hq] at hu
    exact absurd hu (by simp)
  · exact Or.inr ⟨(hword hf hw).2, hd⟩

/-! ## Reading a line -/

theorem relation?_toUpper (c d : Char) : relation? c d.toUpper = relation? c d := by
  cases ha : d.isAlpha with
  | false => rw [Text.toUpper_of_not_isAlpha ha]
  | true =>
    have hnone : ∀ e : Char, e.isAlpha = true → relation? c e = none := by
      intro e he
      cases hr : relation? c e with
      | none => rfl
      | some r =>
        have hmem := (mem_of_relation? hr).2
        simp only [List.mem_cons, List.not_mem_nil, or_false] at hmem
        rcases hmem with rfl | rfl | rfl <;> exact absurd he (by decide)
    rw [hnone d ha, hnone d.toUpper (by rw [Char.isAlpha_toUpper_eq_isAlpha, ha])]

/-- A colon in front of a text. -/
theorem scan_colon_cons (column : Nat) (cs : List Char) :
    scan column (':' :: cs) = (.ofText .colon column ":" :: ·) <$> scan (column + 1) cs := by
  have hstop : ∀ d ∈ cs.head?, relation? ':' d = none := by
    intro d _
    cases hr : relation? ':' d with
    | none => rfl
    | some r => exact absurd (mem_of_relation? hr).1 (by decide)
  rw [scan, lexeme_sign (show sign? ':' = some .colon from rfl) hstop]
  rfl

/-- A text that begins with a colon gives the colon first. -/
theorem scan_colon (h : scan column cs = .ok ts) (hc : cs.head? = some ':') :
    ∃ us, ts = .ofText .colon column ":" :: us := by
  obtain ⟨ds, rfl⟩ := List.head?_eq_some_iff.mp hc
  rw [scan_colon_cons] at h
  cases hr : scan (column + 1) ds with
  | error e =>
    rw [hr] at h
    cases h
  | ok us =>
    rw [hr] at h
    exact ⟨us, (Except.ok.inj h).symm⟩

theorem dataRun_append_self (quoted : Bool) (cs : List Char) :
    ∃ rest, cs = dataRun quoted cs ++ rest ∧ (rest = [] ∨ rest.head? = some ':') ∧
      ∀ tail : List Char, tail = [] ∨ (rest.head? = some ':' ∧ tail.head? = some ':') →
        dataRun quoted (dataRun quoted cs ++ tail) = dataRun quoted cs := by
  induction cs generalizing quoted with
  | nil =>
    refine ⟨[], rfl, Or.inl rfl, fun tail ht => ?_⟩
    rcases ht with rfl | ⟨hr, -⟩
    · rfl
    · exact absurd hr (by simp)
  | cons c cs ih =>
    by_cases hc : (c = ':' && !quoted) = true
    · have hrun : dataRun quoted (c :: cs) = [] := by rw [dataRun, if_pos hc]
      obtain ⟨rfl, hq⟩ : c = ':' ∧ quoted = false := by simpa using hc
      refine ⟨':' :: cs, by rw [hrun]; rfl, Or.inr rfl, fun tail ht => ?_⟩
      rw [hrun, List.nil_append]
      rcases ht with rfl | ⟨-, hd⟩
      · rfl
      · obtain ⟨ds, rfl⟩ := List.head?_eq_some_iff.mp hd
        rw [dataRun, if_pos (by simp [hq])]
    · have hrun : dataRun quoted (c :: cs) =
          c :: dataRun (if c = '"' then !quoted else quoted) cs := by
        rw [dataRun, if_neg hc]
      obtain ⟨rest, hcs, hrest, hback⟩ := ih (if c = '"' then !quoted else quoted)
      refine ⟨rest, by rw [hrun, List.cons_append, ← hcs], hrest, fun tail ht => ?_⟩
      rw [hrun, List.cons_append, dataRun, if_neg hc, hback tail ht]

theorem Writing.extends?_blank (w : Writing) : w.extends? ' ' = false := by
  have hmark : isPrecisionMark ' ' = false := rfl
  have hdigit : Text.isDigit ' ' = false := by decide
  have hletter : Floating.isExponentLetter ' ' = false := rfl
  have hsign : Floating.isSign ' ' = false := rfl
  unfold Writing.extends?
  cases w.exponent <;> simp [hmark, hdigit, hletter, hsign]

theorem Run.extends?_blank (r : Run) : r.extends? ' ' = false := by
  have hsigil : isSigil ' ' = false := rfl
  simp [Run.extends?, hsigil]

section Step

variable {text : List Char} {found : Lexeme}

theorem stands_number {w : Writing} {v : Value} {rest : List Char} (formed : w.Formed)
    (finished : (w.read []).isUnfinished = false) (value : (w.read []).value = .ok v)
    (stop : ∀ c ∈ rest.head?, w.extends? c = false ∧ c ≠ '.')
    (hrest : Scanned (column + w.chars.length) rest ts) :
    Stands (.ofText (.number v) column (String.ofList w.chars))
      (tailChars (.ofText (.number v) column (String.ofList w.chars)) ts).head? := by
  refine .number rfl (by simp [Token.ofText]) formed finished value fun c hc => ?_
  rcases hrest.behind_word (by simp [Token.ofText]) rfl rfl hc with rfl | ⟨-, d, hd, rfl⟩
  · exact ⟨w.extends?_blank, by decide⟩
  · obtain ⟨hx, hp⟩ := stop d hd
    refine ⟨(extends?_toUpper d).trans hx, fun h => hp ?_⟩
    have := Text.apply_toUpper (q := fun e => e = '.')
      (fun e he => by simp [of_decide_eq_true he]) d
    simpa [h] using this

theorem stands_name {r : Run} {rest : List Char} (formed : r.Formed)
    (free : keywordIn? [] r.chars = none) (stop : ∀ c ∈ rest.head?, r.extends? c = false)
    (hs : t.stop ≤ column)
    (hk : t.kind = .name (nameKind r.capital.chars) (String.ofList r.capital.chars))
    (hrest : Scanned column rest ts) : Stands t (tailChars t ts).head? := by
  refine .name hk formed free fun c hc => ?_
  rcases hrest.behind_word hs (by simp [isFn, hk]) (by simp [isWord, hk]) hc
    with rfl | ⟨-, d, hd, rfl⟩
  · exact r.extends?_blank
  · exact (r.extends?_toUpper d).trans (stop d hd)

/-- No word that DEF makes goes on with a blank or a character of a token that needs no blank. -/
theorem defWords_stop {c : Char} (h : c = ' ' ∨ c ∈ jointChars) :
    ∀ e ∈ defWords, e.1.toList.head? ≠ (Text.capital c).head? := by
  have hheads : ∀ e ∈ defWords, e.1.toList.head? ∈ [some 'I', some 'S', some 'D'] := by decide
  have hcapital : (Text.capital c).head? ∉ [some 'I', some 'S', some 'D'] := by
    simp only [jointChars, List.mem_cons, List.not_mem_nil, or_false] at h
    rcases h with rfl | rfl | rfl | rfl | rfl | rfl | rfl | rfl | rfl | rfl | rfl | rfl | rfl |
      rfl | rfl | rfl | rfl | rfl | rfl | rfl <;> decide
  exact fun e he heq => hcapital (heq ▸ hheads e he)

theorem stands_keyword {k : Keyword} {rest : List Char} (plain : k ≠ .REM ∧ k ≠ .DATA)
    (hs : t.stop ≤ column) (hk : t.kind = .keyword k) (hrest : Scanned column rest ts) :
    Stands t (tailChars t ts).head? := by
  refine .keyword hk plain fun hdef c hc => ?_
  subst hdef
  rcases hrest.behind_word hs (by simp [isFn, hk]) (by simp [isWord, hk, Keyword.isOperator]) hc
    with hb | ⟨hj, -⟩
  · exact defWords_stop (Or.inl hb)
  · exact defWords_stop (Or.inr hj)

theorem stands_sign {c : Char} {rest : List Char} (hk : sign? c = some t.kind)
    (text : t.text.toList = [c]) (stop : ∀ d ∈ rest.head?, relation? c d = none)
    (hs : t.stop ≤ column) (hrest : Scanned column rest ts) : Stands t (tailChars t ts).head? := by
  by_cases hq : t.kind = .question
  · exact .question hq
  refine .sign hk hq text fun d hd => ?_
  have hplain : ∀ e : Char, e = ' ' ∨ e = 'P' → relation? c e = none := by
    intro e he
    cases hr : relation? c e with
    | none => rfl
    | some r =>
      have hmem := (mem_of_relation? hr).2
      rcases he with rfl | rfl <;> exact absurd hmem (by decide)
  rcases hrest.behind hs hd with hb | ⟨u, -, -, ⟨-, hp⟩ | ⟨e, he, rfl⟩⟩
  · exact hplain d (Or.inl hb)
  · exact hplain d (Or.inr hp)
  · rw [relation?_toUpper]
    exact stop e he

/-- The tokens of DATA keep apart from what is read behind the items. -/
theorem lexed_data {c : Char} (fits : 4 ≤ (c :: cs).length)
    (hrest : Scanned (column + 4 + (dataRun false ((c :: cs).drop 4)).length)
      (((c :: cs).drop 4).drop (dataRun false ((c :: cs).drop 4)).length) ts) :
    Lexed (.ofText (.keyword .DATA) column (String.ofList ((c :: cs).take 4)) ::
      .ofText (.dataText (String.ofList (dataRun false ((c :: cs).drop 4)))) (column + 4)
        (String.ofList (dataRun false ((c :: cs).drop 4))) :: ts) := by
  obtain ⟨rest, hcs, hend, hback⟩ := dataRun_append_self false ((c :: cs).drop 4)
  generalize hrun : dataRun false ((c :: cs).drop 4) = run at *
  have hdrop : ((c :: cs).drop 4).drop run.length = rest := by
    rw [hcs, List.drop_left]
  rw [hdrop] at hrest
  refine .data rfl rfl rfl ?_ (fun tail htail => ?_) hrest.lexed
  · have hlen : ((c :: cs).take 4).length = 4 := by
      rw [List.length_take]
      omega
    simp only [Token.ofText, String.length_ofList, hlen]
  rw [String.toList_ofList]
  apply hback
  rcases hend with hnil | hcolon
  · rw [hrest.nil hnil, Listing.tailChars_nil] at htail
    exact Or.inl (List.head?_eq_none_iff.mp htail)
  · obtain ⟨us, rfl⟩ := hrest.colon hcolon
    refine Or.inr ⟨hcolon, htail.trans ?_⟩
    have hchars : chars (.ofText .colon (column + 4 + run.length) ":") = [':'] := by
      simp [chars, Listing.spelling, Token.ofText]
    rw [head?_tailChars (by simp [hchars]), hchars, if_pos]
    · rfl
    · rw [Listing.gapLength_eq_zero_iff]
      simp [Token.ofText, isWord]

theorem Found.lexed (h : Found column text found)
    (hrest : Scanned (column + 1 + found.more) (text.drop (found.more + 1)) ts) :
    Lexed (found.tokens ++ ts) := by
  cases h with
  | @number w v rest formed finished value stop =>
    obtain ⟨c, ds, hw, -⟩ := formed.head
    have hlen : w.chars.length - 1 + 1 = w.chars.length := by simp [hw]
    rw [hlen, List.drop_left, Nat.add_assoc, Nat.add_comm 1, hlen] at hrest
    exact .cons (stands_number formed finished value stop hrest) hrest.lexed
  | string inside =>
    exact .cons (.string rfl (by simp [Token.ofText]) (by simpa using inside)) hrest.lexed
  | @name r rest formed free stop =>
    have hlen : r.chars.length - 1 + 1 = r.chars.length :=
      Nat.sub_add_cancel (List.length_pos_of_ne_nil formed.chars_ne_nil)
    rw [hlen, List.drop_left, Nat.add_assoc, Nat.add_comm 1, hlen] at hrest
    refine .cons (stands_name formed free stop ?_ rfl hrest) hrest.lexed
    simp [Token.ofText, ← map_toUpper_chars formed]
  | @keyword k c cs head plain =>
    refine .cons (stands_keyword plain ?_ rfl hrest) hrest.lexed
    have hpos : 0 < k.spelling.length := by
      rw [← String.length_toList]
      exact List.length_pos_of_ne_nil (spelling_ne_nil k)
    simp only [Token.ofText, String.length_ofList, List.length_take]
    omega
  | @data c cs head fits =>
    have hmore : 4 + (dataRun false ((c :: cs).drop 4)).length - 1 + 1 =
        4 + (dataRun false ((c :: cs).drop 4)).length := by omega
    rw [hmore, Nat.add_assoc, Nat.add_comm 1, hmore, ← Nat.add_assoc, ← List.drop_drop] at hrest
    exact lexed_data fits hrest
  | @rem c cs head fits =>
    rw [hrest.nil (by simp), List.append_nil]
    refine .remark (Or.inl rfl) rfl rfl ?_
    have hlen : ((c :: cs).take 3).length = 3 := by
      rw [List.length_take]
      omega
    simp only [Token.ofText, String.length_ofList, hlen]
  | blank blank => exact hrest.lexed
  | @apostrophe cs =>
    rw [hrest.nil (by simp), List.append_nil]
    exact .remark (Or.inr ⟨rfl, rfl⟩) rfl rfl rfl
  | sign sign stop =>
    exact .cons (stands_sign sign (by simp [Token.ofText]) stop (by simp [Token.ofText]) hrest)
      hrest.lexed
  | relation pair => exact .cons (.relation rfl (by simp [Token.ofText]) pair) hrest.lexed

theorem Found.after (h : Found column text found)
    (hrest : Scanned (column + 1 + found.more) (text.drop (found.more + 1)) ts) :
    ∀ u ∈ (found.tokens ++ ts).head?, column ≤ u.column := by
  intro u hu
  cases h with
  | blank blank => exact (by omega : column ≤ column + 1 + 0).trans (hrest.after u hu)
  | number | string | name | keyword | data | rem | apostrophe | sign | relation =>
    obtain rfl := Option.some.inj hu
    exact Nat.le_refl column

theorem Found.same (h : Found column text found)
    (hrest : Scanned (column + 1 + found.more) (text.drop (found.more + 1)) ts) :
    ∀ u ∈ (found.tokens ++ ts).head?, u.column = column →
      u.kind = .question ∨ (chars u).head? = text.head?.map Char.toUpper := by
  intro u hu hc
  unfold chars Listing.spelling
  cases h with
  | blank blank =>
    have := hrest.after u hu
    omega
  | @number w v rest formed finished value stop =>
    obtain rfl := Option.some.inj hu
    obtain ⟨c, ds, hw, hhead⟩ := formed.head
    right
    have hcapital : Text.capital c = [c.toUpper] := by
      rcases hhead with hd | rfl
      · rw [Text.capital_of_isDigit hd, Text.toUpper_of_isDigit hd]
      · decide
    simp only [Token.ofText, Text.capitals, String.toList_ofList, hw, List.flatMap_cons, hcapital]
    rfl
  | string inside =>
    obtain rfl := Option.some.inj hu
    exact Or.inr (by simp [Token.ofText])
  | @name r rest formed free stop =>
    obtain rfl := Option.some.inj hu
    obtain ⟨c, ds, hr⟩ := List.exists_cons_of_ne_nil formed.chars_ne_nil
    right
    simp only [Token.ofText, String.toList_ofList]
    rw [← map_toUpper_chars formed, hr]
    rfl
  | @keyword k c cs head plain =>
    obtain rfl := Option.some.inj hu
    exact Or.inr head
  | data head fits =>
    obtain rfl := Option.some.inj hu
    exact Or.inr (by simp [Token.ofText, head, Keyword.spelling])
  | rem head fits =>
    obtain rfl := Option.some.inj hu
    exact Or.inr (by simp [Token.ofText, head, Keyword.spelling])
  | apostrophe =>
    obtain rfl := Option.some.inj hu
    exact Or.inr (by simp [Token.ofText])
  | @sign c cs kind sign stop =>
    obtain rfl := Option.some.inj hu
    by_cases hq : kind = .question
    · exact Or.inl hq
    have hl := (@listed_of_sign? (.ofText kind column (String.singleton c)) c sign hq).1
    unfold Listing.spelling at hl
    right
    rw [hl, Token.ofText, String.toList_singleton, List.head?_cons, List.head?_cons,
      Option.map_some,
      Text.toUpper_of_not_isAlpha (kind_of_mem_signChars (mem_of_sign? sign)).2.2.2.1]
  | @relation c d cs r pair =>
    obtain rfl := Option.some.inj hu
    have halpha : c.isAlpha = false := by
      have hmem := (mem_of_relation? pair).1
      simp only [List.mem_cons, List.not_mem_nil, or_false] at hmem
      rcases hmem with rfl | rfl | rfl <;> decide
    exact Or.inr (by simp [Token.ofText, Text.toUpper_of_not_isAlpha halpha])

/-- **The tokens that are read from a text keep apart in its listing.** -/
theorem scan_scanned (h : scan column cs = .ok ts) : Scanned column cs ts := by
  induction column, cs using scan.induct generalizing ts with
  | case1 column =>
    rw [scan] at h
    obtain rfl := Except.ok.inj h
    exact ⟨.nil, fun _ => rfl, by simp, by simp, by simp⟩
  | case2 column c cs ih =>
    obtain ⟨found, rest, hfound, hrest, hts⟩ := scan_cons_ok h
    have hscanned := ih found hrest
    subst hts
    exact ⟨hfound.lexed hscanned, by simp, scan_colon h, hfound.after hscanned,
      hfound.same hscanned⟩

end Step

/-! ## Jumps of two words -/

theorem joined?_eq_some {k : Keyword} (h : joined? t u = some k) :
    t.kind = .name .real "GO" ∧
      (u.kind = .keyword .TO ∧ k = .GOTO ∨ u.kind = .name .real "SUB" ∧ k = .GOSUB) := by
  unfold joined? at h
  split at h
  · exact ⟨by assumption, Or.inl ⟨by assumption, (Option.some.inj h).symm⟩⟩
  · exact ⟨by assumption, Or.inr ⟨by assumption, (Option.some.inj h).symm⟩⟩
  · exact absurd h (by simp)

theorem joined?_eq_none (h : t.kind ≠ .name .real "GO") : joined? t u = none := by
  cases hk : joined? t u with
  | none => rfl
  | some k => exact absurd (joined?_eq_some hk).1 h

theorem joinJumps_cons (h : ∀ u ∈ ts.head?, joined? t u = none) :
    joinJumps (t :: ts) = t :: joinJumps ts := by
  cases ts with
  | nil => rfl
  | cons u us => rw [joinJumps, h u rfl]

/-- The second word of a jump does not begin another. -/
theorem joinJumps_second {k : Keyword} (h : joined? t u = some k) :
    joinJumps (u :: us) = u :: joinJumps us := by
  refine joinJumps_cons fun v _ => joined?_eq_none fun hgo => ?_
  rcases (joined?_eq_some h).2 with ⟨hu, -⟩ | ⟨hu, -⟩
  · exact absurd (hu.symm.trans hgo) (by simp)
  · exact absurd (hu.symm.trans hgo) (by simp)

/-- The first token stays, or it is GO and becomes the jump in its place. -/
theorem joinJumps_head (u : Token) (us : List Token) :
    ∃ v vs, joinJumps (u :: us) = v :: vs ∧
      (v = u ∨ u.kind = .name .real "GO" ∧ v.column = u.column ∧
      (v.kind = .keyword .GOTO ∨ v.kind = .keyword .GOSUB)) := by
  cases us with
  | nil => exact ⟨u, [], rfl, Or.inl rfl⟩
  | cons w ws =>
    rw [joinJumps]
    cases hk : joined? u w with
    | none => exact ⟨u, _, rfl, Or.inl rfl⟩
    | some k =>
      obtain ⟨hu, hw⟩ := joined?_eq_some hk
      refine ⟨_, _, rfl, Or.inr ⟨hu, rfl, ?_⟩⟩
      rcases hw with ⟨-, rfl⟩ | ⟨-, rfl⟩ <;> simp

theorem head?_tailChars_joinJumps (h : Lexed ts) :
    (tailChars t (joinJumps ts)).head? = (tailChars t ts).head? := by
  cases ts with
  | nil => rfl
  | cons u us =>
    obtain ⟨v, vs, hj, rfl | ⟨hgo, hcolumn, hv⟩⟩ := joinJumps_head u us
    · obtain ⟨c, ds, hu, -⟩ := h.head
      rw [hj, head?_tailChars (by simp [hu]), head?_tailChars (by simp [hu])]
    -- GO, GOTO and GOSUB begin alike
    · have hword : isWord v = isWord u := by
        rcases hv with hv | hv <;> simp [isWord, hgo, hv, Keyword.isOperator]
      have hgap : gapLength t v = gapLength t u := by
        unfold gapLength
        rw [hcolumn, hword]
      have hu : chars u = ['G', 'O'] := by simp [chars, Listing.spelling, hgo]
      obtain ⟨ds, hds⟩ : ∃ ds, chars v = 'G' :: ds := by
        rcases hv with hv | hv <;> simp [chars, Listing.spelling, hv, Keyword.spelling]
      rw [hj, head?_tailChars (by simp [hds]), head?_tailChars (by simp [hu]), hgap, hu, hds]
      rfl

/-- **Tokens that keep apart do so after GO TO has become one token.** -/
theorem joinJumps_lexed (h : Lexed ts) : Lexed (joinJumps ts) := by
  -- by the rule that puts the first token in front
  induction h with
  | nil => exact .nil
  | @cons t ts stands rest ih =>
    by_cases hnone : ∀ u ∈ ts.head?, joined? t u = none
    · rw [joinJumps_cons hnone]
      exact .cons (by rw [head?_tailChars_joinJumps rest]; exact stands) ih
    · obtain ⟨u, us, rfl⟩ : ∃ u us, ts = u :: us := by
        cases ts with
        | nil => exact absurd (by simp) hnone
        | cons u us => exact ⟨u, us, rfl⟩
      obtain ⟨k, hk⟩ : ∃ k, joined? t u = some k :=
        Option.ne_none_iff_exists'.mp (by simpa using hnone)
      obtain ⟨-, hu⟩ := joined?_eq_some hk
      rw [joinJumps_second hk] at ih
      rw [joinJumps, hk]
      generalize joinJumps us = vs at ih ⊢
      refine .cons (.keyword rfl ?_ fun hdef => ?_) ?_
      · rcases hu with ⟨-, rfl⟩ | ⟨-, rfl⟩ <;> simp
      · rcases hu with ⟨-, rfl⟩ | ⟨-, rfl⟩ <;> exact absurd hdef (by simp)
      · cases ih with
        | cons _ rest => exact rest
        | data kind | remark kind => rcases hu with ⟨hu, -⟩ | ⟨hu, -⟩ <;> simp [hu] at kind
  | @data d x s ts kind items text touch run rest ih =>
    rw [joinJumps_cons fun _ _ => joined?_eq_none (by simp [kind]),
      joinJumps_cons fun _ _ => joined?_eq_none (by simp [items])]
    exact .data kind items text touch (by rw [head?_tailChars_joinJumps rest]; exact run) ih
  | @remark r m s kind body text touch =>
    have hr : r.kind ≠ .name .real "GO" := by rcases kind with kind | ⟨kind, -⟩ <;> simp [kind]
    rw [joinJumps_cons fun _ _ => joined?_eq_none hr]
    exact .remark kind body text touch

/-- After that no two neighbours make a jump. -/
theorem joinJumps_unjoined (ts : List Token) :
    (joinJumps ts).IsChain fun a b => joined? a b = none := by
  induction ts using joinJumps.induct with
  | case1 first second rest k hk ih =>
    rw [joinJumps, hk]
    exact ih.cons fun _ _ => joined?_eq_none (by simp)
  | case2 first second rest hk ih =>
    rw [joinJumps, hk]
    refine ih.cons fun v hv => ?_
    obtain ⟨w, vs, hj, hw⟩ := joinJumps_head second rest
    rw [hj] at hv
    obtain rfl : w = v := Option.some.inj hv
    rcases hw with rfl | ⟨-, -, hjump⟩
    · exact hk
    · cases hv : joined? first w with
      | none => rfl
      | some k => rcases (joined?_eq_some hv).2 with ⟨hto, -⟩ | ⟨hsub, -⟩ <;> simp_all
  | case3 ts hts =>
    cases ts with
    | nil => exact .nil
    | cons t ts =>
      cases ts with
      | nil => exact .singleton t
      | cons u us => exact absurd rfl (hts t u us)

theorem joinJumps_of_unjoined (h : ts.IsChain fun a b => joined? a b = none) :
    joinJumps ts = ts := by
  induction ts with
  | nil => rfl
  | cons t ts ih =>
    obtain ⟨hfirst, hrest⟩ := List.isChain_cons.mp h
    rw [joinJumps_cons hfirst, ih hrest]

/-- Tokens that keep apart in a listing, no two of which make a jump. -/
structure Apart (ts : List Token) : Prop where
  lexed : Lexed ts
  unjoined : ts.IsChain fun a b => joined? a b = none

/-- The tokens of a line keep apart. -/
theorem tokenize_apart (h : tokenize cs = .ok ts) : Apart ts := by
  unfold tokenize at h
  cases hs : scan 1 (Text.dropEnd isReturn cs) with
  | error e => rw [hs] at h; exact absurd h (by simp [bind, Except.bind])
  | ok us =>
    rw [hs] at h
    obtain rfl := Except.ok.inj h
    exact ⟨joinJumps_lexed (scan_scanned hs).lexed, joinJumps_unjoined us⟩

end LineBasic.Lexer
