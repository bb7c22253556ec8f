import Mathlib
import LineBasic.Parser.Line
import LineBasic.Proofs.Trimming

/-!
# Listed lines

A numbered line is read from its listed text, and that text reads as the same line again.

* `numberedLine_eq`: the statements of a numbered line are those of the tokens of its listing.
* `parseLine_listedText`: the listed text of a line that has been read is read as the same line.
* `render_relistedLine`: the tokens of a listed source are listed as that source.
-/

namespace LineBasic.Text

/-! ## Decimal numbers -/

theorem digitValue?_of_isDigit {c : Char} (h : c.isDigit = true) :
    digitValue? c = some (c.toNat - '0'.toNat) := by
  have hc := Char.isDigit_iff_toNat.mp h
  have h0 : '0'.toNat = 48 := rfl
  have h9 : '9'.toNat = 57 := rfl
  unfold digitValue? zeros
  rw [List.find?_cons_of_pos (by simp; omega)]
  rfl

theorem isDigit_of_isDigit {c : Char} (h : c.isDigit = true) : isDigit c = true := by
  unfold isDigit
  rw [digitValue?_of_isDigit h]
  rfl

theorem digitsValue_eq {cs : List Char} (h : ∀ c ∈ cs, c.isDigit = true) :
    digitsValue cs = Nat.ofDigitChars 10 cs 0 := by
  have hvalues : cs.filterMap digitValue? = cs.map fun c => c.toNat - '0'.toNat := by
    rw [← List.filterMap_eq_map]
    exact List.filterMap_congr fun c hc => digitValue?_of_isDigit (h c hc)
  unfold digitsValue ofDigits
  rw [hvalues, List.foldl_map, Nat.ofDigitChars_eq_foldl]

theorem isDigit_of_mem_toString {n : Nat} {c : Char} (h : c ∈ (toString n).toList) :
    c.isDigit = true := by
  rw [Nat.toString_eq_ofList_toDigits, String.toList_ofList] at h
  exact Nat.isDigit_of_mem_toDigits (by decide) (by decide) h

theorem toString_ne_nil (n : Nat) : (toString n).toList ≠ [] := by
  rw [Nat.toString_eq_ofList_toDigits, String.toList_ofList]
  exact Nat.toDigits_ne_nil

/-- A number is read back from its decimal digits. -/
theorem digitsValue_toString (n : Nat) : digitsValue (toString n).toList = n := by
  rw [digitsValue_eq fun c hc => isDigit_of_mem_toString hc, Nat.toString_eq_ofList_toDigits,
    String.toList_ofList, Nat.ofDigitChars_ten_toDigits]

end LineBasic.Text

namespace LineBasic.Listing

open Lexer (Lexed)

/-- The text of a line as it is listed, without blanks at its end. -/
def source (ts : List Token) : String := String.ofList (lineChars (trimmed ts))

/-- The tokens of a line as they are read in its listing. -/
def relistedLine (ts : List Token) : List Token := relisted 1 0 (trimmed ts)

/-! ## The source of a line -/

theorem shift_pieces (k : Nat) (t : Token) (ts : List Token) :
    pieces (t.shift k) (ts.map (·.shift k)) = pieces t ts := by
  induction ts generalizing t with
  | nil => rfl
  | cons u us ih =>
    have hgap : gap (t.shift k) (u.shift k) = gap t u := by
      unfold gap
      have hlt : (t.shift k).stop < (u.shift k).column ↔ t.stop < u.column := by
        simp only [Token.shift]
        omega
      have hsub : (u.shift k).column - (t.shift k).stop = u.column - t.stop := by
        simp only [Token.shift]
        omega
      rw [hsub]
      simp only [hlt]
      rfl
    simp only [List.map_cons, pieces, hgap, ih]
    rfl

theorem render_shift (k : Nat) (ts : List Token) :
    render (k + 1) (ts.map (·.shift k)) = render 1 ts := by
  cases ts with
  | nil => rfl
  | cons t ts =>
    have hcolumn : (t.shift k).column - (k + 1) = t.column - 1 := by
      simp only [Token.shift]
      omega
    unfold render
    simp only [List.map_cons, linePieces, hcolumn, shift_pieces]
    rfl

theorem toList_linePieces (start : Nat) (t : Token) (ts : List Token) :
    (String.join (linePieces start (t :: ts))).toList =
      List.replicate (t.column - start) ' ' ++ lineChars (t :: ts) := by
  have hjoin : ∀ l : List String, (String.join l).toList = l.flatMap String.toList := by
    intro l
    induction l with
    | nil => rfl
    | cons s l ih => rw [String.join_cons, String.toList_append, ih, List.flatMap_cons]
  rw [hjoin, linePieces, List.flatMap_cons, List.flatMap_cons, String.toList_ofList]
  rfl

theorem render_eq {start : Nat} {t : Token} {ts : List Token} (h : Lexed (t :: ts)) :
    render start (t :: ts) =
      String.ofList (List.replicate (t.column - start) ' ' ++ lineChars (trimmed (t :: ts))) := by
  have hsome : Text.dropEnd Text.isBlank (lineChars (t :: ts)) ≠ [] := by
    rw [Lexer.lineChars_trimmed h]
    exact Lexer.lineChars_ne_nil h (by simp)
  unfold render
  rw [toList_linePieces, Text.dropEnd_append hsome, Lexer.lineChars_trimmed h]

/-- The source of a line is its listing without blanks on either side. -/
theorem dropFront_render {ts : List Token} (h : Lexed ts) (start : Nat) :
    Text.dropFront Text.isBlank (render start ts) = source ts := by
  cases ts with
  | nil => rfl
  | cons t ts =>
    obtain ⟨c, ds, ht, -⟩ := h.head
    have hhead : ∀ d ∈ (lineChars (trimmed (t :: ts))).head?, Text.isBlank d = false := by
      intro d hd
      rw [h.trimmed_cons, lineChars_cons, ht] at hd
      exact h.not_isBlank d (by rwa [ht])
    rw [render_eq h, Text.dropFront, String.toList_ofList, Text.dropWhile_run _ hhead]
    · rfl
    · intro d hd
      rw [List.eq_of_mem_replicate hd]
      decide

/-! ## Reading the source -/

variable {cs : List Char} {ts : List Token}

theorem not_isReturn_of_not_isBlank {c : Char} (h : Text.isBlank c = false) :
    Lexer.isReturn c = false := by
  cases hr : Lexer.isReturn c with
  | false => rfl
  | true =>
    simp only [Lexer.isReturn, Bool.or_eq_true, decide_eq_true_eq] at hr
    rcases hr with rfl | rfl <;> exact absurd h (by decide)

theorem dropEnd_source (h : Lexed ts) :
    Text.dropEnd Text.isBlank (lineChars (trimmed ts)) = lineChars (trimmed ts) := by
  rw [← Lexer.lineChars_trimmed h, Text.dropEnd_dropEnd]

theorem dropEnd_isReturn_source (h : Lexed ts) :
    Text.dropEnd Lexer.isReturn (lineChars (trimmed ts)) = lineChars (trimmed ts) := by
  refine Text.dropEnd_eq_self fun c hc => not_isReturn_of_not_isBlank ?_
  rw [← dropEnd_source h] at hc
  exact Text.getLast?_dropEnd hc

/-- **The source of a line is read as the tokens of its listing.** -/
theorem tokenize_source (h : Lexer.Apart ts) :
    Lexer.tokenize (source ts).toList = .ok (relistedLine ts) := by
  have hscan := @Lexer.scan_lineChars 1 (trimmed ts) h.lexed.trimmed 0
  rw [List.replicate_zero, List.nil_append] at hscan
  unfold Lexer.tokenize source
  rw [String.toList_ofList, dropEnd_isReturn_source h.lexed, hscan]
  exact congrArg Except.ok
    (Lexer.joinJumps_of_unjoined (Lexer.unjoined_relisted (Lexer.unjoined_trimmed h.unjoined) 1 0))

theorem apart_relistedLine (h : Lexer.Apart ts) : Lexer.Apart (relistedLine ts) :=
  Lexer.tokenize_apart (tokenize_source h)

/-- The source of the tokens of a listing is the same source. -/
theorem source_relistedLine (h : Lexer.Apart ts) : source (relistedLine ts) = source ts := by
  unfold source
  rw [← Lexer.lineChars_trimmed (apart_relistedLine h).lexed, relistedLine,
    Lexer.lineChars_relisted h.lexed.trimmed, dropEnd_source h.lexed]

/-- Reading the listing a second time changes nothing. -/
theorem relistedLine_relistedLine (h : Lexer.Apart ts) :
    relistedLine (relistedLine ts) = relistedLine ts := by
  have hagain := tokenize_source (apart_relistedLine h)
  rw [source_relistedLine h, tokenize_source h] at hagain
  exact (Except.ok.inj hagain).symm

/-- A line that begins at the first column is listed as its source. -/
theorem render_eq_source (h : Lexed ts) (hfirst : ∀ t ∈ ts.head?, t.column = 1) :
    render 1 ts = source ts := by
  cases ts with
  | nil => rfl
  | cons t ts =>
    rw [render_eq h, hfirst t rfl]
    rfl

theorem column_relistedLine (h : Lexed ts) : ∀ t ∈ (relistedLine ts).head?, t.column = 1 := by
  intro t ht
  cases ts with
  | nil => cases ht
  | cons u us =>
    rw [relistedLine, h.trimmed_cons, relisted, relistedToken_eq h.ne_dataText] at ht
    obtain rfl := Option.some.inj ht
    rfl

/-- **The tokens of a source are listed as that source.** -/
theorem render_relistedLine (h : Lexer.Apart ts) : render 1 (relistedLine ts) = source ts := by
  rw [render_eq_source (apart_relistedLine h).lexed (column_relistedLine h.lexed),
    source_relistedLine h]

end LineBasic.Listing

namespace LineBasic.Parser

open Listing (source relistedLine)

/-! ## Reading the listed line -/

variable {cs : List Char} {ts : List Token}

theorem toList_listedText (n : Nat) (s : String) :
    (listedText n s).toList = (toString n).toList ++ ' ' :: s.toList := by
  unfold listedText
  rw [String.toList_append, String.toList_append, List.append_assoc]
  rfl

theorem lineStart?_listed (n : Nat) (cs : List Char) :
    lineStart? ((toString n).toList ++ ' ' :: cs) =
      some ⟨(toString n).toList, 1, (toString n).length + 1⟩ := by
  obtain ⟨d, ds, hd⟩ := List.exists_cons_of_ne_nil (Text.toString_ne_nil n)
  have hdigits : ∀ c ∈ (toString n).toList, Text.isDigit c = true :=
    fun c hc => Text.isDigit_of_isDigit (Text.isDigit_of_mem_toString hc)
  have hstop : ∀ c ∈ (' ' :: cs).head?, Text.isDigit c = false := by simp; decide
  have hgap : isGap d = false := by
    have hdigit : d.isDigit = true := Text.isDigit_of_mem_toString (by rw [hd]; simp)
    cases hg : isGap d with
    | false => rfl
    | true =>
      simp only [isGap, Bool.or_eq_true, decide_eq_true_eq] at hg
      rcases hg with rfl | rfl <;> exact absurd hdigit (by decide)
  have hgaps : ((toString n).toList ++ ' ' :: cs).takeWhile isGap = [] := by
    rw [hd, List.cons_append, List.takeWhile_cons, hgap]
    rfl
  have hafter : ((toString n).toList ++ ' ' :: cs).dropWhile isGap = (toString n).toList ++
      ' ' :: cs := by
    rw [hd, List.cons_append, List.dropWhile_cons, hgap]
    rfl
  unfold lineStart?
  simp only [hgaps, hafter, Text.takeWhile_run hdigits hstop, Text.dropWhile_run hdigits hstop]
  rw [if_neg (by simp), ← String.length_toList]
  simp [isGap]

/-- The number at the start of a listed line ends behind the blank. -/
theorem length_of_listed {n : Nat} {s : String} {start : LineStart}
    (h : lineStart? (listedText n s).toList = some start) :
    start.length = (toString n).length + 1 := by
  rw [toList_listedText, lineStart?_listed] at h
  exact congrArg LineStart.length (Option.some.inj h).symm

theorem drop_listed (n : Nat) (s : String) :
    (listedText n s).toList.drop ((toString n).length + 1) = s.toList := by
  rw [toList_listedText, ← String.length_toList, ← List.drop_drop, List.drop_left]
  rfl

/-- **A numbered line is read from its listing.** -/
theorem numberedLine_eq {n offset : Nat} (room : Nat) (h : Lexer.tokenize (cs.drop offset) = .ok ts)
    (hoffset : cs = (listedText n (source ts)).toList → offset = (toString n).length + 1) :
    numberedLine room n offset cs =
      (orFault (parseTokens room ((listedText n (source ts)).toList.length + 1)
      ((relistedLine ts).map (·.shift ((toString n).length + 1))))).map fun statements =>
        ⟨some n, statements, source ts⟩ := by
  have hapart := Lexer.tokenize_apart h
  have hsource : Text.dropFront Text.isBlank
      (Listing.render (offset + 1) (ts.map (·.shift offset))) = source ts := by
    rw [Listing.render_shift, Listing.dropFront_render hapart.lexed]
  have htokens : tokensAfter offset cs = .ok (ts.map (·.shift offset)) := by
    unfold tokensAfter
    rw [h]
    rfl
  have hlisted : tokensAfter ((toString n).length + 1) (listedText n (source ts)).toList =
      .ok ((relistedLine ts).map (·.shift ((toString n).length + 1))) := by
    unfold tokensAfter
    rw [drop_listed, Listing.tokenize_source hapart]
    rfl
  have hbind : ∀ r : Except Fault (List Statement),
      (do return (⟨some n, ← r, source ts⟩ : SourceLine)) = r.map fun statements =>
      ⟨some n, statements, source ts⟩ := by
    intro r
    cases r <;> rfl
  unfold numberedLine
  rw [htokens]
  simp only [bind, Except.bind, hsource]
  by_cases hcs : (listedText n (source ts)).toList = cs
  · rw [if_pos hcs]
    rw [hcs, ← hoffset hcs.symm, htokens] at hlisted
    rw [Except.ok.inj hlisted, ← hoffset hcs.symm]
    exact hbind _
  · rw [if_neg hcs, hlisted]
    exact hbind _

theorem placeFault_eq_ok {α : Type} {line : Nat} {r : Except Fault α} {a : α}
    (h : placeFault line r = .ok a) :
    r = .ok a := by
  unfold placeFault at h
  split at h
  · exact absurd h (by simp)
  · exact h

theorem tokensAfter_eq_ok {offset : Nat} {us : List Token} (h : tokensAfter offset cs = .ok us) :
    ∃ ts, Lexer.tokenize (cs.drop offset) = .ok ts ∧ us = ts.map (·.shift offset) := by
  unfold tokensAfter at h
  cases ht : Lexer.tokenize (cs.drop offset) with
  | error e => rw [ht] at h; exact absurd h (by simp [bind, Except.bind])
  | ok ts =>
    rw [ht] at h
    exact ⟨ts, rfl, (Except.ok.inj h).symm⟩

theorem orFault_eq_ok {α : Type} {r : Except Error α} {a : α} (h : orFault r = .ok a) :
    r = .ok a := by
  cases r with
  | ok b => rw [Except.ok.inj h]
  | error e => exact absurd h (by simp [orFault])

/-- What is known of a numbered line that has been read: its source and its statements come from the
tokens of a part of the text. -/
theorem parseLine_ok {room : Nat} {raw : String} {l : SourceLine} {n : Nat}
    (h : parseLine room raw = .ok l) (hn : l.number = some n) :
    1 ≤ n ∧ n ≤ maxLineNumber ∧ ∃ rest ts, (∀ c ∈ rest, c ∈ raw.toList) ∧
      Lexer.tokenize rest = .ok ts ∧
      l.source = source ts ∧ parseTokens (room - 1) ((listedText n (source ts)).toList.length + 1)
        ((relistedLine ts).map (·.shift ((toString n).length + 1))) = .ok l.statements := by
  unfold parseLine at h
  simp only at h
  split at h
  · rename_i start hstart
    split at h
    · exact absurd h (by simp)
    · split at h
      · exact absurd h (by simp)
      · rename_i hrange
        simp only [Bool.or_eq_true, decide_eq_true_eq, not_or, not_lt] at hrange
        have hline := placeFault_eq_ok h
        cases ht : tokensAfter start.length (Text.dropEnd Lexer.isReturn raw.toList) with
        | error e =>
          unfold numberedLine at hline
          rw [ht] at hline
          exact absurd hline (by simp [bind, Except.bind])
        | ok us =>
          obtain ⟨ts, htokens, -⟩ := tokensAfter_eq_ok ht
          rw [numberedLine_eq (room - 1) htokens fun hcs => length_of_listed (hcs ▸ hstart)]
            at hline
          cases hp : parseTokens (room - 1)
            ((listedText start.number (source ts)).toList.length + 1)
              ((relistedLine ts).map (·.shift ((toString start.number).length + 1))) with
          | error e => rw [hp] at hline; exact absurd hline (by simp [orFault, Except.map])
          | ok statements =>
            rw [hp] at hline
            obtain rfl := Except.ok.inj hline
            obtain rfl : start.number = n := Option.some.inj hn
            exact ⟨hrange.1, hrange.2, _, ts, fun c hc =>
              Text.mem_of_mem_dropEnd (List.mem_of_mem_drop hc), htokens, rfl, hp⟩
  · exfalso
    cases ht : tokensAfter 0 (Text.dropEnd Lexer.isReturn raw.toList) with
    | error e => rw [ht] at h; exact absurd h (by simp [bind, Except.bind])
    | ok us =>
      rw [ht] at h
      simp only [bind, Except.bind] at h
      split at h
      · exact absurd h (by simp)
      · obtain rfl := Except.ok.inj h
        exact absurd hn (by simp)

theorem length_toString_le {n : Nat} (h : n ≤ maxLineNumber) : (toString n).toList.length ≤ 5 := by
  rw [Nat.toString_eq_ofList_toDigits, String.toList_ofList,
    Nat.length_toDigits_le_iff (by decide) (by decide)]
  exact Nat.lt_of_le_of_lt h (by decide)

theorem dropEnd_listedText (n : Nat) (b : String) :
    Text.dropEnd Lexer.isReturn (listedText n b).toList =
    (toString n).toList ++ ' ' :: Text.dropEnd Lexer.isReturn b.toList := by
  rw [toList_listedText, Text.dropEnd_append_cons (by decide)]

theorem number_listed (n column length : Nat) :
    LineStart.number ⟨(toString n).toList, column, length⟩ = n :=
  Text.digitsValue_toString n

/-- A text is read behind a line number only. -/
theorem range_of_parseLine_listed {room : Nat} {b : String} {n : Nat} {l : SourceLine}
    (h : parseLine room (listedText n b) = .ok l) :
    1 ≤ n ∧ n ≤ maxLineNumber := by
  unfold parseLine at h
  simp only [dropEnd_listedText, lineStart?_listed, number_listed] at h
  split at h
  · cases h
  · split at h
    · cases h
    · rename_i hrange
      simp only [Bool.or_eq_true, decide_eq_true_eq, not_or] at hrange
      omega

/-- **A text behind a number is read from the tokens of its listing.** -/
theorem parseLine_listed {b : String} {n : Nat} (room : Nat) (hlow : 1 ≤ n)
    (hhigh : n ≤ maxLineNumber) :
    parseLine room (listedText n b) =
      placeFault n (match Lexer.tokenize (Text.dropEnd Lexer.isReturn b.toList) with
        | .error e => .error e
        | .ok ts => (orFault (parseTokens (room - 1) ((listedText n (source ts)).toList.length + 1)
            ((relistedLine ts).map (·.shift ((toString n).length + 1))))).map
              fun statements => ⟨some n, statements, source ts⟩) := by
  have hdigits : ¬Text.longestDecimal < (toString n).toList.length := by
    have hfive := length_toString_le hhigh
    have hlimit : Text.longestDecimal = 4300 := rfl
    omega
  have hdrop : ((toString n).toList ++ ' ' :: Text.dropEnd Lexer.isReturn b.toList).drop
    ((toString n).length + 1) =
      Text.dropEnd Lexer.isReturn b.toList := by
    rw [← String.length_toList, ← List.drop_drop, List.drop_left]
    rfl
  unfold parseLine
  simp only [dropEnd_listedText, lineStart?_listed, number_listed]
  rw [if_neg hdigits, if_neg (by simp; omega)]
  congr 1
  cases htokens : Lexer.tokenize (Text.dropEnd Lexer.isReturn b.toList) with
  | error e =>
    unfold numberedLine tokensAfter
    rw [hdrop, htokens]
    rfl
  | ok ts => exact numberedLine_eq _ (hdrop.symm ▸ htokens) fun _ => rfl

theorem number_of_parseLine_listed {room : Nat} {b : String} {n : Nat} {l : SourceLine}
    (h : parseLine room (listedText n b) = .ok l) :
    l.number = some n := by
  obtain ⟨hlow, hhigh⟩ := range_of_parseLine_listed h
  rw [parseLine_listed _ hlow hhigh] at h
  cases htokens : Lexer.tokenize (Text.dropEnd Lexer.isReturn b.toList) with
  | error e =>
    rw [htokens] at h
    cases e <;> cases h
  | ok ts =>
    rw [htokens] at h
    simp only at h
    cases hparse : orFault (parseTokens (room - 1) ((listedText n (source ts)).toList.length + 1)
        ((relistedLine ts).map (·.shift ((toString n).length + 1)))) with
    | error f =>
      rw [hparse] at h
      cases f <;> cases h
    | ok statements =>
      rw [hparse] at h
      rw [← Except.ok.inj h]

/-- The source of tokens that keep apart is read from the tokens of its listing. -/
theorem parseLine_source {n : Nat} (room : Nat) (hlow : 1 ≤ n) (hhigh : n ≤ maxLineNumber)
    (h : Lexer.Apart ts) :
    parseLine room (listedText n (source ts)) =
      placeFault n ((orFault (parseTokens (room - 1) ((listedText n (source ts)).toList.length + 1)
        ((relistedLine ts).map (·.shift ((toString n).length + 1))))).map fun statements =>
          ⟨some n, statements, source ts⟩) := by
  have hend : Text.dropEnd Lexer.isReturn (source ts).toList = (source ts).toList := by
    rw [source, String.toList_ofList, Listing.dropEnd_isReturn_source h.lexed]
  rw [parseLine_listed _ hlow hhigh, hend, Listing.tokenize_source h]
  simp only
  rw [Listing.source_relistedLine h, Listing.relistedLine_relistedLine h]

/-- **The listed text of a line is read as the same line.** -/
theorem parseLine_listedText {room : Nat} {raw : String} {l : SourceLine} {n : Nat}
    (h : parseLine room raw = .ok l) (hn : l.number = some n) :
    parseLine room (listedText n l.source) = .ok l := by
  obtain ⟨hlow, hhigh, rest, ts, -, htokens, hsource, hparse⟩ := parseLine_ok h hn
  have hapart := Lexer.tokenize_apart htokens
  rw [hsource, parseLine_source _ hlow hhigh hapart, hparse]
  cases l with
  | mk number statements src =>
    simp only at hn hsource
    rw [hn, hsource]
    rfl

end LineBasic.Parser
