import Mathlib
import LineBasic.Proofs.ErrorColumns
import LineBasic.Proofs.Execution
import LineBasic.Proofs.ParserRuns
import LineBasic.Proofs.QuotedText

/-!
# Writing DATA and reading it back

The items of DATA are written between commas, in quotes or without them. The text is cut twice: it
runs to the first colon outside quotes, and then it is cut at the commas outside quotes. Line ends
behind the line are dropped before that, and a numbered line is read from its listing, which may
have lost blanks at its end.

* `DataEntry`: an item with the blanks around it. `DataEntry.line`: entries with commas between
  them.
* `dataItems_line`: cutting a line of entries gives their items.
* `Lexer.scan_elsewhere`: a text is cut into tokens of the same kinds wherever it stands.
* `Parser.statementLoop_mono`: more steps than there are tokens change nothing.
* `Parser.parseLine_data`: the main result.
-/

namespace LineBasic

open Text (outside quotedAfter isBlank)

/-! ## Entries -/

/-- An item of DATA as it is written, with blanks around it. An item in quotes has no quote inside;
one without quotes has no quote, comma or colon, and no blanks at its ends. -/
structure DataEntry where
  item : DataItem
  before : List Char
  after : List Char
  blankBefore : ∀ c ∈ before, isBlank c = true
  blankAfter : ∀ c ∈ after, isBlank c = true
  unquoted : '"' ∉ item.text.toList
  bare : item.quoted = false →
    Text.trim item.text.toList = item.text.toList ∧ ',' ∉ item.text.toList ∧ ':' ∉ item.text.toList

namespace DataEntry

/-- The item as it is written. -/
def core (e : DataEntry) : List Char :=
  if e.item.quoted then '"' :: e.item.text.toList ++ ['"'] else e.item.text.toList

/-- The item with the blanks around it. -/
def chars (e : DataEntry) : List Char := e.before ++ e.core ++ e.after

/-- Entries with commas between them. -/
def line (es : List DataEntry) : String := String.ofList ([','].intercalate (es.map chars))

theorem quote_notMem_blanks {cs : List Char} (h : ∀ c ∈ cs, isBlank c = true) : '"' ∉ cs :=
  fun hmem => absurd (h _ hmem) (by decide)

theorem outside_core (e : DataEntry) :
    outside false e.core = if e.item.quoted then [] else e.item.text.toList := by
  unfold core
  split
  · rw [List.cons_append, outside, if_pos rfl, Text.outside_append,
      Text.outside_of_notMem e.unquoted, Text.quotedAfter_of_notMem e.unquoted]
    rfl
  · rw [Text.outside_of_notMem e.unquoted]
    rfl

theorem quotedAfter_core (e : DataEntry) : quotedAfter false e.core = false := by
  unfold core
  split
  · rw [List.cons_append, quotedAfter, Text.quotedAfter_append,
      Text.quotedAfter_of_notMem e.unquoted]
    rfl
  · exact Text.quotedAfter_of_notMem e.unquoted _

theorem quotedAfter_chars (e : DataEntry) : quotedAfter false e.chars = false := by
  rw [chars, Text.quotedAfter_append, Text.quotedAfter_append,
    Text.quotedAfter_of_notMem (quote_notMem_blanks e.blankBefore), e.quotedAfter_core,
    Text.quotedAfter_of_notMem (quote_notMem_blanks e.blankAfter)]

/-- What stands outside quotes is blank or of an item without quotes. -/
theorem notMem_outside_chars (e : DataEntry) {d : Char} (hblank : isBlank d = false)
    (hbare : e.item.quoted = false → d ∉ e.item.text.toList) : d ∉ outside false e.chars := by
  have hbefore : d ∉ e.before :=
    fun hmem => Bool.noConfusion ((e.blankBefore d hmem).symm.trans hblank)
  have hafter : d ∉ e.after :=
    fun hmem => Bool.noConfusion ((e.blankAfter d hmem).symm.trans hblank)
  have hcore : d ∉ outside false e.core := by
    rw [outside_core]
    split
    · exact List.not_mem_nil
    · rename_i hquoted
      exact hbare (by simpa using hquoted)
  rw [chars, Text.outside_append, Text.outside_append, Text.quotedAfter_append,
    Text.quotedAfter_of_notMem (quote_notMem_blanks e.blankBefore), e.quotedAfter_core,
    Text.outside_of_notMem (quote_notMem_blanks e.blankBefore),
    Text.outside_of_notMem (quote_notMem_blanks e.blankAfter)]
  simp [hbefore, hcore, hafter]

theorem comma_notMem (e : DataEntry) : ',' ∉ outside false e.chars :=
  e.notMem_outside_chars (by decide) fun h => (e.bare h).2.1

theorem colon_notMem (e : DataEntry) : ':' ∉ outside false e.chars :=
  e.notMem_outside_chars (by decide) fun h => (e.bare h).2.2

theorem trim_chars (e : DataEntry) : Text.trim e.chars = e.core := by
  rw [chars, Text.trim_append_blanks e.blankAfter, Text.trim_blanks_append e.blankBefore]
  unfold core
  split
  · rw [Text.trim, List.cons_append, List.dropWhile_cons_of_neg (by decide), ← List.cons_append,
      Text.dropEnd, List.reverse_append, List.reverse_singleton, List.singleton_append,
      List.dropWhile_cons_of_neg (by decide),
      ← List.singleton_append, List.reverse_append, List.reverse_reverse, List.reverse_singleton]
  · rename_i hquoted
    exact (e.bare (by simpa using hquoted)).1

/-- A piece is read as the item that was written. -/
theorem ofPiece_chars (e : DataEntry) : DataItem.ofPiece (String.ofList e.chars) = e.item := by
  have hquote := e.unquoted
  have htrim := e.trim_chars
  obtain ⟨⟨text, quoted⟩, before, after, hbefore, hafter, hunquoted, hbare⟩ := e
  unfold DataItem.ofPiece
  rw [String.toList_ofList, htrim]
  cases quoted with
  | true =>
    have hbody : (text.toList ++ ['"']).takeWhile (· != '"') = text.toList := by
      rw [List.takeWhile_append_of_pos]
      · simp
      · intro c hc
        simpa using fun heq : c = '"' => hquote (heq ▸ hc)
    simp only [core, if_true, List.cons_append, hbody, String.ofList_toList]
  | false =>
    simp only [core, Bool.false_eq_true, if_false]
    split
    · rename_i cs hcs
      exact absurd (by rw [hcs]; exact List.mem_cons_self) hquote
    · rw [String.ofList_toList]

/-- The entries are the pieces of their line. -/
theorem cutAtCommas_line {es : List DataEntry} (h : es ≠ []) :
    CutAtCommas (line es).toList (es.map chars) := by
  rw [line, String.toList_ofList]
  induction es with
  | nil => exact absurd rfl h
  | cons e es ih =>
    cases es with
    | nil =>
      have hlast := CutAtCommas.last e.comma_notMem
      simpa using hlast
    | cons e' es =>
      have hcons := CutAtCommas.cons e.comma_notMem e.quotedAfter_chars (ih (List.cons_ne_nil _ _))
      simpa using hcons

theorem colon_notMem_line {es : List DataEntry} (h : es ≠ []) :
    ':' ∉ outside false (line es).toList := by
  refine (cutAtCommas_line h).notMem_outside (by decide) fun p hp => ?_
  obtain ⟨e, -, rfl⟩ := List.mem_map.mp hp
  exact e.colon_notMem

theorem quotedAfter_line {es : List DataEntry} (h : es ≠ []) :
    quotedAfter false (line es).toList = false := by
  refine (cutAtCommas_line h).quotedAfter_eq fun p hp => ?_
  obtain ⟨e, -, rfl⟩ := List.mem_map.mp hp
  exact e.quotedAfter_chars

end DataEntry

/-- **Cutting a line of entries gives their items.** -/
theorem dataItems_line {es : List DataEntry} (h : es ≠ []) :
    dataItems (DataEntry.line es) = es.map DataEntry.item := by
  rw [dataItems, commaPieces, (DataEntry.cutAtCommas_line h).commaPiecesFrom_eq, List.map_map,
    List.map_map]
  exact List.map_congr_left fun e _ => e.ofPiece_chars

/-! ## The tokens of a text wherever it stands -/

namespace Lexer

variable {column ending : Nat} {c : Char} {cs : List Char}

theorem wordLexeme_elsewhere (column column' : Nat) (cs : List Char) :
    (wordLexeme column' cs).more = (wordLexeme column cs).more ∧
      (wordLexeme column' cs).tokens.map Token.kind =
        (wordLexeme column cs).tokens.map Token.kind := by
  unfold wordLexeme
  simp only
  split <;> exact ⟨rfl, rfl⟩

theorem signLexeme_elsewhere {found : Lexeme} (h : signLexeme column c cs = .ok found)
    (column' : Nat) :
    ∃ found', signLexeme column' c cs = .ok found' ∧ found'.more = found.more ∧
      found'.tokens.map Token.kind = found.tokens.map Token.kind := by
  unfold signLexeme at h ⊢
  split at h
  · obtain rfl := Except.ok.inj h
    exact ⟨_, rfl, rfl, rfl⟩
  · split at h
    · obtain rfl := Except.ok.inj h
      exact ⟨_, rfl, rfl, rfl⟩
    · split at h <;> cases h

theorem lexeme_elsewhere {found : Lexeme} (h : lexeme column ending c cs = .ok found)
    (column' ending' : Nat) :
    ∃ found', lexeme column' ending' c cs = .ok found' ∧ found'.more = found.more ∧
      found'.tokens.map Token.kind = found.tokens.map Token.kind := by
  unfold lexeme at h ⊢
  cases hnumber : numberText? (c :: cs) with
  | some n =>
    simp only [hnumber] at h ⊢
    unfold number at h ⊢
    split at h
    · cases h
    · rename_i hformed
      rw [if_neg hformed]
      cases hvalue : n.value with
      | error e =>
        rw [hvalue] at h
        cases h
      | ok v =>
        rw [hvalue] at h
        obtain rfl := Except.ok.inj h
        exact ⟨_, rfl, rfl, rfl⟩
  | none =>
    simp only [hnumber] at h ⊢
    split_ifs at h ⊢
    · unfold stringLexeme at h ⊢
      simp only at h ⊢
      split_ifs at h ⊢
      · cases h
      · obtain rfl := Except.ok.inj h
        exact ⟨_, rfl, rfl, rfl⟩
    · obtain rfl := Except.ok.inj h
      exact ⟨_, rfl, wordLexeme_elsewhere _ _ _⟩
    · exact ⟨found, h, rfl, rfl⟩
    · obtain rfl := Except.ok.inj h
      exact ⟨_, rfl, rfl, rfl⟩
    · exact signLexeme_elsewhere h column'

/-- A text is cut into tokens of the same kinds wherever it stands. -/
theorem scan_elsewhere {ts : List Token} (h : scan column cs = .ok ts) (column' : Nat) :
    ∃ us, scan column' cs = .ok us ∧ us.map Token.kind = ts.map Token.kind := by
  induction column, cs using scan.induct generalizing column' ts with
  | case1 column =>
    rw [scan] at h ⊢
    exact ⟨[], rfl, congrArg _ (Except.ok.inj h)⟩
  | case2 column c cs ih =>
    rw [scan] at h
    obtain ⟨found, hlexeme, h⟩ := ok_of_bind h
    obtain ⟨rest, hrest, h⟩ := ok_of_bind h
    obtain rfl := Except.ok.inj h
    obtain ⟨found', hlexeme', hmore, hkinds⟩ :=
      lexeme_elsewhere hlexeme column' (column' + 1 + cs.length)
    obtain ⟨us, hus, hsame⟩ := ih found hrest (column' + 1 + found'.more)
    refine ⟨found'.tokens ++ us, ?_, by rw [List.map_append, List.map_append, hkinds, hsame]⟩
    rw [scan, hlexeme']
    change (scan (column' + 1 + found'.more) (cs.drop found'.more) >>= fun rest =>
      pure (found'.tokens ++ rest)) = _
    rw [hmore] at hus ⊢
    rw [hus]
    rfl

theorem joined?_congr {t t' u u' : Token} (ht : t'.kind = t.kind) (hu : u'.kind = u.kind) :
    joined? t' u' = joined? t u := by
  unfold joined?
  rw [ht, hu]

/-- Which tokens make a jump together is told by their kinds. -/
theorem joinJumps_kinds {ts us : List Token} (h : us.map Token.kind = ts.map Token.kind) :
    (joinJumps us).map Token.kind = (joinJumps ts).map Token.kind := by
  fun_induction joinJumps ts generalizing us with
  | case1 first second rest k hjoined ih =>
    obtain ⟨first', us, rfl, hfirst, h⟩ := List.map_eq_cons_iff.mp h
    obtain ⟨second', us, rfl, hsecond, h⟩ := List.map_eq_cons_iff.mp h
    rw [joinJumps, joined?_congr hfirst hsecond, hjoined]
    exact congrArg (TokenKind.keyword k :: ·) (ih h)
  | case2 first second rest hjoined ih =>
    obtain ⟨first', us, rfl, hfirst, h⟩ := List.map_eq_cons_iff.mp h
    have hsecond := h
    obtain ⟨second', us, rfl, hsecond, -⟩ := List.map_eq_cons_iff.mp hsecond
    rw [joinJumps, joined?_congr hfirst hsecond, hjoined, List.map_cons, List.map_cons,
      hfirst, ih h]
  | case3 ts hshort =>
    have hsame : joinJumps us = us := by
      rw [joinJumps]
      rintro first' second' rest' rfl
      obtain ⟨first, ts, rfl, -, h⟩ := List.map_eq_cons_iff.mp h.symm
      obtain ⟨second, ts, rfl, -, -⟩ := List.map_eq_cons_iff.mp h
      exact hshort _ _ _ rfl
    rw [hsame, h]

/-- DATA and its text are the first tokens, and those of the rest follow. -/
theorem tokenize_data {run rest : List Char} {us : List Token}
    (hcs : Text.dropEnd isReturn cs = Keyword.DATA.spelling.toList ++ (run ++ rest))
    (hrun : dataRun false (run ++ rest) = run) (hrest : scan (5 + run.length) rest = .ok us) :
    ∃ d x, tokenize (Text.dropEnd isReturn cs) = .ok (d :: x :: joinJumps us) ∧
      d.kind = .keyword .DATA ∧ x.kind = .dataText (String.ofList run) := by
  refine ⟨.ofText (.keyword .DATA) 1 Keyword.DATA.spelling,
    .ofText (.dataText (String.ofList run)) 5 (String.ofList run), ?_, rfl, rfl⟩
  rw [tokenize, Text.dropEnd_dropEnd, hcs, scan_data hrun, hrest]
  change Except.ok (joinJumps (_ :: _ :: us)) = _
  rw [joinJumps_cons fun u _ => joined?_eq_none (by simp [Token.ofText]),
    joinJumps_cons fun u _ => joined?_eq_none (by simp [Token.ofText])]

end Lexer

/-! ## Statements behind others -/

namespace Parser

variable {n depth k : Nat} {t : Token} {ts rest : List Token} {p : Parser (List Statement)}
  {ss rs : List Statement}

theorem run_statementLoop_nil (p : Parser (List Statement)) (k n : Nat) :
    statementLoop p k n [] = .ok ([], []) := by
  cases k <;> rfl

theorem run_statementLoop_cons (p : Parser (List Statement)) (k n : Nat) (t : Token)
    (ts : List Token) :
    statementLoop p (k + 1) n (t :: ts) =
      if (isColon t).isSome then statementLoop p k n ts
      else if (isKeyword .ELSE t).isSome then .ok ([], t :: ts)
      else (do
        let first ← p
        if ← atEnd then return first ++ (← statementLoop p k) else refuse :
          Parser (List Statement)) n (t :: ts) := by
  have hpeek : peek? n (t :: ts) = .ok (some t, t :: ts) := rfl
  rw [statementLoop, run_bind_of_ok hpeek]
  simp only
  split_ifs <;> rfl

/-- More steps than it takes to come to the end of the line change nothing. -/
theorem statementLoop_mono {k' : Nat} (hk : k ≤ k') (h : statementLoop p k n ts = .ok (ss, [])) :
    statementLoop p k' n ts = .ok (ss, []) := by
  induction k generalizing k' ts ss with
  | zero =>
    obtain ⟨rfl, rfl⟩ := run_pure_eq_ok h
    exact run_statementLoop_nil p k' n
  | succ k ih =>
    obtain ⟨k', rfl⟩ := Nat.exists_eq_add_of_le' (Nat.one_le_of_lt hk)
    have hk := Nat.le_of_succ_le_succ hk
    cases ts with
    | nil => exact h
    | cons t ts =>
      rw [run_statementLoop_cons] at h ⊢
      split at h
      · rename_i hcolon
        rw [if_pos hcolon]
        exact ih hk h
      · rename_i hcolon
        rw [if_neg hcolon]
        split at h
        · cases h
        · rename_i helse
          rw [if_neg helse]
          obtain ⟨first, us, hfirst, h⟩ := run_bind_eq_ok h
          obtain ⟨ended, vs, hend, h⟩ := run_bind_eq_ok h
          rw [run_bind_of_ok hfirst, run_bind_of_ok hend]
          cases ended with
          | false => exact h
          | true =>
            obtain ⟨more, ws, hmore, h⟩ := run_bind_eq_ok h
            obtain ⟨rfl, rfl⟩ := run_pure_eq_ok h
            exact run_bind_of_ok (ih hk hmore)

/-- A statement in front of the end of the line or a colon. -/
theorem run_statementLoop_first {first : List Statement} (hcolon : isColon t = none)
    (helse : isKeyword .ELSE t = none) (hfirst : p n (t :: ts) = .ok (first, rest))
    (hend : ∀ u ∈ rest.head?, isColon u = some u)
    (hrest : statementLoop p k n rest = .ok (ss, [])) :
    statementLoop p (k + 1) n (t :: ts) = .ok (first ++ ss, []) := by
  have hended : atEnd n rest = .ok (true, rest) := by
    cases rest with
    | nil => rfl
    | cons u us =>
      have hu : endsStatement u = true := by rw [endsStatement, hend u rfl]; rfl
      change Except.ok (endsStatement u, u :: us) = _
      rw [hu]
  rw [run_statementLoop_cons, hcolon, helse, if_neg (by decide), if_neg (by decide),
    run_bind_of_ok hfirst, run_bind_of_ok hended]
  exact run_bind_of_ok hrest

/-- A DATA statement is read from its two tokens. -/
theorem run_statement_data {d x : Token} {s : String} (hd : d.keyword? = some .DATA)
    (hx : x.kind = .dataText s) :
    statement (depth + 1) n (d :: x :: ts) =
      .ok ([.command d.column (.data (dataItems s))], ts) := by
  rw [run_statement_keyword hd (by decide) rfl]
  have htext : dataText? x = some s := by rw [dataText?, hx]
  rw [run_bind_of_ok (run_bind_of_ok (run_expect_of_some htext))]
  rfl

theorem run_statementList (depth n : Nat) (ts : List Token) :
    statementList (depth + 1) n ts = statementLoop (statement depth) ts.length n ts := by
  rw [statementList]
  rfl

theorem parseTokens_eq_ok_iff {room : Nat} :
    parseTokens room n ts = .ok ss ↔ statementList (room - 1) n ts = .ok (ss, []) := by
  rw [run_parseTokens]
  rcases statementList (room - 1) n ts with e | ⟨statements, _ | ⟨u, us⟩⟩ <;> simp

/-- A DATA statement alone on its line. -/
theorem parseTokens_data (room : Nat) {d x : Token} {s : String} (hd : d.kind = .keyword .DATA)
    (hx : x.kind = .dataText s) :
    parseTokens (room + 3) n [d, x] = .ok [.command d.column (.data (dataItems s))] := by
  have hkeyword : d.keyword? = some .DATA := by rw [Token.keyword?, hd]
  rw [parseTokens_eq_ok_iff, Nat.add_sub_cancel_right (room + 2) 1, run_statementList]
  refine run_statementLoop_first ?_ ?_ (run_statement_data hkeyword hx) ?_
    (run_statementLoop_nil _ _ _)
  · simp [isColon, that, hd]
  · simp [isKeyword, hkeyword]
  · intro u hu
    cases hu

/-- A DATA statement in front of others. -/
theorem parseTokens_data_colon {room : Nat} {d x c : Token} {s : String}
    (hd : d.kind = .keyword .DATA) (hx : x.kind = .dataText s) (hc : c.kind = .colon)
    (h : parseTokens (room + 3) n ts = .ok ss) :
    parseTokens (room + 3) n (d :: x :: c :: ts) =
      .ok (.command d.column (.data (dataItems s)) :: ss) := by
  have hkeyword : d.keyword? = some .DATA := by rw [Token.keyword?, hd]
  have hcolon : isColon c = some c := if_pos (by rw [hc])
  rw [parseTokens_eq_ok_iff, Nat.add_sub_cancel_right (room + 2) 1, run_statementList] at h ⊢
  refine run_statementLoop_first ?_ ?_ (run_statement_data hkeyword hx) ?_ ?_
  · simp [isColon, that, hd]
  · simp [isKeyword, hkeyword]
  · intro u hu
    obtain rfl : c = u := Option.some.inj hu
    exact hcolon
  · rw [List.length_cons, List.length_cons, run_statementLoop_cons, hcolon,
      if_pos (Option.isSome_some)]
    exact statementLoop_mono (Nat.le_succ _) h

/-- Tokens of the same kinds are read as the same statements. -/
theorem parseTokens_of_kinds {room : Nat} {us : List Token}
    (hkinds : us.map Token.kind = ts.map Token.kind) (h : parseTokens room n ts = .ok ss)
    (m : Nat) :
    ∃ rs, parseTokens room m us = .ok rs ∧ reformList id Listing.trimEnd ss =
      reformList id Listing.trimEnd rs := by
  have haligned : Change.storing.Aligned .none ts us := by
    have hsame : List.Forall₂ (· = ·) (ts.map Token.kind) (us.map Token.kind) := by
      rw [List.forall₂_eq_eq_eq]
      exact hkinds.symm
    rw [List.forall₂_map_left_iff, List.forall₂_map_right_iff] at hsame
    exact Change.aligned_of_same rfl (hsame.imp fun t u heq => ⟨heq ▸ .refl t.kind, trivial⟩) _
  have hfollows := Change.parseTokens_follows haligned room n m
  rw [h] at hfollows
  exact hfollows

/-- What is read from the tokens of a text is read from a numbered line, columns and the blanks at
the end of a remark aside. -/
theorem parseLine_of_parseTokens (room : Nat) {b : String} {number : Nat} (hlow : 1 ≤ number)
    (hhigh : number ≤ maxLineNumber)
    (htokens : Lexer.tokenize (Text.dropEnd Lexer.isReturn b.toList) = .ok ts)
    (h : parseTokens (room - 1) n ts = .ok ss) :
    ∃ l, parseLine room (listedText number b) = .ok l ∧ l.number = some number ∧
      reformList id Listing.trimEnd ss = reformList id Listing.trimEnd l.statements := by
  have hfollows := Change.parseTokens_follows
    (Change.aligned_relistedLine 0 ((toString number).length + 1) ts) (room - 1) n
    ((listedText number (Listing.source ts)).toList.length + 1)
  have hshift : ts.map (·.shift 0) = ts := List.map_id ts
  rw [hshift, h] at hfollows
  obtain ⟨rs, hlisted, hsame⟩ := hfollows
  rw [parseLine_listed room hlow hhigh, htokens]
  simp only [hlisted]
  exact ⟨_, rfl, rfl, hsame⟩

/-- The first of the statements is a DATA statement, whatever its column. -/
theorem exists_data_of_reformList {remark : String → String} {column : Nat} {items : List DataItem}
    (h : reformList id remark (.command column (.data items) :: ss) = reformList id remark rs) :
    ∃ column rest, rs = .command column (.data items) :: rest ∧
      reformList id remark ss = reformList id remark rest := by
  cases rs with
  | nil => cases h
  | cons r rest =>
    rw [reformList, reformList] at h
    obtain ⟨hfirst, hrest⟩ := List.cons.inj h
    cases r with
    | branch => cases hfirst
    | command column' c =>
      obtain ⟨-, hdata⟩ := Statement.command.inj hfirst
      cases c with
      | data items' =>
        obtain rfl := Command.data.inj hdata
        exact ⟨column', rest, rfl, hrest⟩
      | _ => cases hdata

/-- Entries behind DATA, without the line ends that stand there. -/
theorem dropEnd_data (cs : List Char) : Text.dropEnd Lexer.isReturn ("DATA ".toList ++ cs) =
    Keyword.DATA.spelling.toList ++ (' ' :: Text.dropEnd Lexer.isReturn cs) := by
  have hsplit : "DATA ".toList ++ cs = Keyword.DATA.spelling.toList ++ ' ' :: cs := rfl
  rw [hsplit, Text.dropEnd_append_cons (by decide)]

theorem dropEnd_data_colon (cs ds : List Char) :
    Text.dropEnd Lexer.isReturn ("DATA ".toList ++ cs ++ ":".toList ++ ds) =
    Keyword.DATA.spelling.toList ++ (' ' :: cs ++ ':' :: Text.dropEnd Lexer.isReturn ds) := by
  have hsplit : "DATA ".toList ++ cs ++ ":".toList ++ ds = "DATA ".toList ++ cs ++ ':' :: ds := by
    rw [List.append_assoc _ ":".toList]
    rfl
  rw [hsplit, Text.dropEnd_append_cons (by decide), List.append_assoc]
  rfl

/-- Line ends behind the entries do not show. -/
theorem dataItems_dropEnd (s : String) :
    dataItems (String.ofList (' ' :: Text.dropEnd Lexer.isReturn s.toList)) = dataItems s := by
  have hfront := dataItems_blanks 1 (String.ofList (Text.dropEnd Lexer.isReturn s.toList))
  rw [String.toList_ofList] at hfront
  refine hfront.trans (SamePieces.dataItems_eq ?_).symm
  obtain ⟨ds, hsplit, hreturn⟩ := Text.exists_append_dropEnd Lexer.isReturn s.toList
  have hblank : ∀ c ∈ ds, isBlank c = true := by
    intro c hc
    have hc := hreturn c hc
    rw [Lexer.isReturn, Bool.or_eq_true, decide_eq_true_eq, decide_eq_true_eq] at hc
    rcases hc with rfl | rfl <;> decide
  have hpieces :=
    @samePieces_append_blanks (Text.dropEnd Lexer.isReturn s.toList) ds hblank false []
  rwa [← hsplit, ← String.toList_ofList (l := Text.dropEnd Lexer.isReturn s.toList)] at hpieces

/-- The text of DATA runs to the end of the entries. -/
theorem dataRun_line {es : List DataEntry} (hes : es ≠ []) :
    Lexer.dataRun false (' ' :: Text.dropEnd Lexer.isReturn (DataEntry.line es).toList) =
      ' ' :: Text.dropEnd Lexer.isReturn (DataEntry.line es).toList := by
  obtain ⟨ds, hsplit, -⟩ := Text.exists_append_dropEnd Lexer.isReturn (DataEntry.line es).toList
  have hcolon := DataEntry.colon_notMem_line hes
  rw [hsplit, Text.outside_append, List.mem_append, not_or] at hcolon
  have hrun := Lexer.dataRun_append hcolon.1 []
  rw [List.append_nil] at hrun
  rw [Lexer.dataRun, if_neg (by decide), if_neg (by decide), hrun, Lexer.dataRun, List.append_nil]

/-- With a colon behind the entries it runs to the colon. -/
theorem dataRun_line_colon {es : List DataEntry} (hes : es ≠ []) (cs : List Char) :
    Lexer.dataRun false (' ' :: (DataEntry.line es).toList ++ ':' :: cs) =
      ' ' :: (DataEntry.line es).toList := by
  rw [List.cons_append, Lexer.dataRun, if_neg (by decide), if_neg (by decide),
    Lexer.dataRun_append (DataEntry.colon_notMem_line hes), DataEntry.quotedAfter_line hes,
    Lexer.dataRun, if_pos (by decide),
    List.append_nil]

/-- A line that has nothing but entries. -/
theorem parseLine_data_alone {room number : Nat} (hroom : 4 ≤ room) (hlow : 1 ≤ number)
    (hhigh : number ≤ maxLineNumber) {es : List DataEntry} (hes : es ≠ []) :
    ∃ l column, parseLine room (listedText number ("DATA " ++ DataEntry.line es)) = .ok l ∧
      l.number = some number ∧
      l.statements = [.command column (.data (es.map DataEntry.item))] := by
  have hcs := dropEnd_data (DataEntry.line es).toList
  rw [← String.toList_append] at hcs
  have hend : ∀ column, Lexer.scan column [] = .ok [] := fun column => by rw [Lexer.scan]
  obtain ⟨d, x, htokens, hd, hx⟩ := Lexer.tokenize_data (by rw [hcs, List.append_nil])
    (by rw [List.append_nil, dataRun_line hes]) (hend _)
  obtain ⟨more, rfl⟩ := Nat.exists_eq_add_of_le' hroom
  have hparse := parseTokens_data (n := 1) more hd hx
  obtain ⟨l, hl, hnumber, hsame⟩ := parseLine_of_parseTokens (more + 4) hlow hhigh htokens hparse
  rw [dataItems_dropEnd, dataItems_line hes] at hsame
  obtain ⟨column, rest, hstatements, hrest⟩ := exists_data_of_reformList hsame
  cases rest with
  | nil => exact ⟨l, column, hl, hnumber, hstatements⟩
  | cons => cases hrest

/-- What a line without a number is read from. -/
theorem directLine_eq_ok {room : Nat} {text : String} {l : SourceLine}
    (h : directLine room text = .ok l) :
    ∃ us, Lexer.scan 1 (Text.dropEnd Lexer.isReturn text.toList) = .ok us ∧
      parseTokens (room - 1) ((Text.dropEnd Lexer.isReturn text.toList).length + 1)
        (Lexer.joinJumps us) = .ok l.statements := by
  unfold directLine at h
  cases htokens : Lexer.tokenize (Text.dropEnd Lexer.isReturn text.toList) with
  | error f =>
    rw [htokens] at h
    cases h
  | ok ts =>
    have hshift : ts.map (·.shift 0) = ts := List.map_id ts
    simp only [htokens, hshift] at h
    rw [Lexer.tokenize, Text.dropEnd_dropEnd] at htokens
    obtain ⟨us, hscan, hjoined⟩ := ok_of_bind htokens
    obtain rfl := Except.ok.inj hjoined
    refine ⟨us, hscan, ?_⟩
    cases hparse : parseTokens (room - 1) ((Text.dropEnd Lexer.isReturn text.toList).length + 1)
        (Lexer.joinJumps us) with
    | error e =>
      rw [hparse] at h
      cases h
    | ok ss =>
      rw [hparse] at h
      obtain rfl := Except.ok.inj h
      rfl

/-- A line that has entries, a colon and more. -/
theorem parseLine_data_colon {room number : Nat} (hroom : 4 ≤ room) (hlow : 1 ≤ number)
    (hhigh : number ≤ maxLineNumber) {es : List DataEntry} (hes : es ≠ []) {text : String}
    {l : SourceLine} (h : directLine room text = .ok l) :
    ∃ l' column rest,
      parseLine room (listedText number ("DATA " ++ DataEntry.line es ++ ":" ++ text)) = .ok l' ∧
      l'.number = some number ∧
        l'.statements = .command column (.data (es.map DataEntry.item)) :: rest ∧
      reformList id Listing.trimEnd rest = reformList id Listing.trimEnd l.statements := by
  obtain ⟨ts, hscan, hparse⟩ := directLine_eq_ok h
  have hcs := dropEnd_data_colon (DataEntry.line es).toList text.toList
  rw [← String.toList_append, ← String.toList_append, ← String.toList_append] at hcs
  -- the tokens of the text stand farther on, and are of the same kinds there
  obtain ⟨us, hus, hkinds⟩ :=
    Lexer.scan_elsewhere hscan (5 + (' ' :: (DataEntry.line es).toList).length + 1)
  obtain ⟨d, x, htokens, hd, hx⟩ := Lexer.tokenize_data hcs (dataRun_line_colon hes _)
    (by rw [Lexer.scan_colon_cons, hus]; rfl)
  rw [Lexer.joinJumps_cons fun u _ => Lexer.joined?_eq_none (by simp [Token.ofText])] at htokens
  obtain ⟨ss, hss, hsame⟩ := parseTokens_of_kinds (Lexer.joinJumps_kinds hkinds) hparse 1
  obtain ⟨more, rfl⟩ := Nat.exists_eq_add_of_le' hroom
  obtain ⟨l', hl', hnumber, hlisted⟩ :=
    parseLine_of_parseTokens (more + 4) hlow hhigh htokens (parseTokens_data_colon hd hx rfl hss)
  have hitems : dataItems (String.ofList (' ' :: (DataEntry.line es).toList)) =
      es.map DataEntry.item :=
    (dataItems_blanks 1 _).trans (dataItems_line hes)
  rw [hitems] at hlisted
  obtain ⟨column, rest, hstatements, hrest⟩ := exists_data_of_reformList hlisted
  exact ⟨l', column, rest, hl', hnumber, hstatements, hrest.symm.trans hsame.symm⟩

/-- **DATA is read back as it was written.** Every list of entries, behind a line number and DATA,
is read as one statement with the items of the entries, wherever there is room for four calls. With
a colon behind the last entry and a text that can be read on its own, the first statement is the
same, and the others are those of the text, columns and the blanks at the end of a remark aside. -/
theorem parseLine_data {room number : Nat} (hroom : 4 ≤ room) (hlow : 1 ≤ number)
    (hhigh : number ≤ maxLineNumber) {es : List DataEntry} (hes : es ≠ []) :
    (∃ l column, parseLine room (listedText number ("DATA " ++ DataEntry.line es)) = .ok l ∧
      l.number = some number ∧
      l.statements = [.command column (.data (es.map DataEntry.item))]) ∧
    ∀ text l, directLine room text = .ok l →
      ∃ l' column rest,
        parseLine room (listedText number ("DATA " ++ DataEntry.line es ++ ":" ++ text)) = .ok l' ∧
        l'.number = some number ∧
          l'.statements = .command column (.data (es.map DataEntry.item)) :: rest ∧
        reformList id Listing.trimEnd rest = reformList id Listing.trimEnd l.statements :=
  ⟨parseLine_data_alone hroom hlow hhigh hes, fun _ _ => parseLine_data_colon hroom hlow hhigh hes⟩

/-- An item in quotes with a comma, a colon and a line end, and one without quotes behind a
blank. -/
def twoEntries : List DataEntry :=
  [⟨⟨"a,b:\n", true⟩, [' '], [], List.forall_mem_singleton.mpr (by decide),
    nofun, by decide, nofun⟩,
    ⟨⟨"1 2", false⟩, [' '], ['\t'], List.forall_mem_singleton.mpr (by decide),
    List.forall_mem_singleton.mpr (by decide),
      by decide, fun _ => by decide +kernel⟩]

theorem parseLine_data_twoEntries : (directLine 990 "PRINT A:'x").isOk = true ∧
    ∃ l column rest, parseLine 990 "65529 DATA  \"a,b:\n\", 1 2\t:PRINT A:'x" = .ok l ∧
      l.number = some 65529 ∧
      l.statements = .command column (.data [⟨"a,b:\n", true⟩, ⟨"1 2", false⟩]) :: rest := by
  have hdirect : (directLine 990 "PRINT A:'x").isOk = true := by decide +kernel
  refine ⟨hdirect, ?_⟩
  cases hl : directLine 990 "PRINT A:'x" with
  | error f =>
    rw [hl] at hdirect
    cases hdirect
  | ok l =>
    have hlow : 1 ≤ 65529 := by decide
    have hentries : twoEntries ≠ [] := by decide
    obtain ⟨l', column, rest, hparse, hnumber, hstatements, -⟩ :=
      (parseLine_data (by decide) hlow (by decide) hentries).2 _ l hl
    exact ⟨l', column, rest, hparse, hnumber, hstatements⟩

end Parser

end LineBasic
