import Mathlib
import LineBasic.Parser.DataText
import LineBasic.Token.Lexer

/-!
# Commas and colons between quotes

A separator that stands between quotes separates nothing. DATA text runs to the first colon outside
quotes, and it is cut at the commas outside quotes, as a reply to INPUT is.

* `Text.outside`, `Text.quotedAfter`: the characters outside quotes, and whether a quote is left
  open.
* `Lexer.dataRun_append`: a text without a colon outside quotes is part of the DATA text.
* `CutAtCommas`: the pieces of a text. `commaPiecesFrom_eq_iff`: those are the pieces, and no
  others.
-/

namespace LineBasic

namespace Text

/-- The characters of a text outside quotes; `quoted` tells whether a quote is open at its start. -/
def outside (quoted : Bool) : List Char → List Char
  | [] => []
  | c :: cs =>
    if c = '"' then outside (!quoted) cs
    else if quoted then outside quoted cs
    else c :: outside quoted cs

/-- Whether a quote is open behind a text. -/
def quotedAfter (quoted : Bool) : List Char → Bool
  | [] => quoted
  | c :: cs => quotedAfter (if c = '"' then !quoted else quoted) cs

variable {quoted : Bool} {c : Char} {cs ds : List Char}

theorem outside_append (quoted : Bool) (cs ds : List Char) :
    outside quoted (cs ++ ds) = outside quoted cs ++ outside (quotedAfter quoted cs) ds := by
  induction cs generalizing quoted with
  | nil => rfl
  | cons c cs ih =>
    rw [List.cons_append, outside, outside, quotedAfter]
    split
    · exact ih _
    · split
      · exact ih _
      · rw [ih, List.cons_append]

theorem quotedAfter_append (quoted : Bool) (cs ds : List Char) :
    quotedAfter quoted (cs ++ ds) = quotedAfter (quotedAfter quoted cs) ds := by
  induction cs generalizing quoted with
  | nil => rfl
  | cons c cs ih => exact ih _

theorem outside_of_notMem (h : '"' ∉ cs) (quoted : Bool) :
    outside quoted cs = if quoted then [] else cs := by
  induction cs with
  | nil => cases quoted <;> rfl
  | cons c cs ih =>
    rw [outside, if_neg fun hc => h (by simp [hc]), ih fun hmem => h (List.mem_cons_of_mem c hmem)]
    split <;> rfl

theorem quotedAfter_of_notMem (h : '"' ∉ cs) (quoted : Bool) : quotedAfter quoted cs = quoted := by
  induction cs with
  | nil => rfl
  | cons c cs ih =>
    rw [quotedAfter, if_neg fun hc => h (by simp [hc])]
    exact ih fun hmem => h (List.mem_cons_of_mem c hmem)

/-- A character that a text does not have outside quotes. -/
theorem notMem_outside_cons {d : Char} (h : d ∉ outside quoted (c :: cs)) (hd : d ≠ '"') :
    ¬(c = d ∧ quoted = false) ∧ d ∉ outside (if c = '"' then !quoted else quoted) cs := by
  rw [outside] at h
  split at h
  · rename_i hc
    rw [if_pos hc]
    exact ⟨fun hfront => hd (hfront.1.symm.trans hc), h⟩
  · rename_i hc
    rw [if_neg hc]
    cases quoted with
    | true => exact ⟨fun hfront => Bool.noConfusion hfront.2, h⟩
    | false =>
      rw [if_neg (by decide), List.mem_cons, not_or] at h
      exact ⟨fun hfront => h.1 hfront.1.symm, h.2⟩

end Text

open Text (outside quotedAfter)

/-- A text without a colon outside quotes is part of the DATA text. -/
theorem Lexer.dataRun_append {quoted : Bool} {cs : List Char} (h : ':' ∉ outside quoted cs)
    (ds : List Char) :
    dataRun quoted (cs ++ ds) = cs ++ dataRun (quotedAfter quoted cs) ds := by
  induction cs generalizing quoted with
  | nil => rfl
  | cons c cs ih =>
    obtain ⟨hc, hcs⟩ := Text.notMem_outside_cons h (by decide)
    rw [List.cons_append, dataRun, if_neg (by simpa using hc), quotedAfter, ih hcs,
      List.cons_append]

/-! ## Cutting at commas -/

/-- The pieces of a text, with a comma between any two of them. No piece has a comma outside quotes,
and none but the last one leaves a quote open. -/
inductive CutAtCommas : List Char → List (List Char) → Prop where
  | last {p : List Char} (plain : ',' ∉ outside false p) : CutAtCommas p [p]
  | cons {p cs : List Char} {ps : List (List Char)} (plain : ',' ∉ outside false p)
      (closed : quotedAfter false p = false)
      (rest : CutAtCommas cs ps) : CutAtCommas (p ++ ',' :: cs) (p :: ps)

theorem commaPiecesFrom_append {quoted : Bool} {cs : List Char} (h : ',' ∉ outside quoted cs)
    (piece ds : List Char) :
    commaPiecesFrom quoted piece (cs ++ ds) =
      commaPiecesFrom (quotedAfter quoted cs) (cs.reverse ++ piece) ds := by
  induction cs generalizing quoted piece with
  | nil => rfl
  | cons c cs ih =>
    obtain ⟨hc, hcs⟩ := Text.notMem_outside_cons h (by decide)
    rw [List.cons_append, commaPiecesFrom, if_neg (by simpa using hc), ih hcs, quotedAfter,
      List.reverse_cons, List.append_assoc]
    rfl

/-- What is found behind a piece that has begun; the induction is on the characters that are
left. -/
theorem cutAtCommas_commaPiecesFrom {quoted : Bool} (piece : List Char)
    (plain : ',' ∉ outside false piece.reverse) (hquoted : quotedAfter false piece.reverse = quoted)
    (cs : List Char) :
    CutAtCommas (piece.reverse ++ cs) (commaPiecesFrom quoted piece cs) := by
  induction cs generalizing quoted piece with
  | nil =>
    rw [List.append_nil]
    exact .last plain
  | cons c cs ih =>
    rw [commaPiecesFrom]
    split
    · rename_i hcomma
      obtain ⟨rfl, rfl⟩ : c = ',' ∧ quoted = false := by simpa using hcomma
      exact .cons plain hquoted (ih [] List.not_mem_nil rfl)
    · rename_i hcomma
      have hplain : ',' ∉ outside quoted [c] := by
        intro hmem
        rw [outside] at hmem
        split at hmem
        · cases hmem
        · cases quoted with
          | true => cases hmem
          | false => exact hcomma (by simpa using (List.mem_singleton.mp hmem).symm)
      rw [← List.singleton_append, ← List.append_assoc, ← List.reverse_singleton,
        ← List.reverse_append, List.singleton_append]
      refine ih _ ?_ ?_
      · rw [List.reverse_cons, Text.outside_append, hquoted, List.mem_append, not_or]
        exact ⟨plain, hplain⟩
      · rw [List.reverse_cons, Text.quotedAfter_append, hquoted]
        rfl

namespace CutAtCommas

variable {cs : List Char} {ps : List (List Char)}

theorem commaPiecesFrom_eq (h : CutAtCommas cs ps) : commaPiecesFrom false [] cs = ps := by
  induction h with
  | @last p plain =>
    have hpieces := commaPiecesFrom_append plain [] []
    rw [List.append_nil, List.append_nil] at hpieces
    rw [hpieces, commaPiecesFrom, List.reverse_reverse]
  | cons plain closed rest ih =>
    rw [commaPiecesFrom_append plain, closed, commaPiecesFrom, if_pos (by decide), ih,
      List.append_nil, List.reverse_reverse]

/-- There is one piece more than there are commas outside quotes. -/
theorem length_eq (h : CutAtCommas cs ps) : ps.length = (outside false cs).count ',' + 1 := by
  induction h with
  | last plain => rw [List.count_eq_zero_of_not_mem plain, List.length_singleton]
  | @cons p cs ps plain closed rest ih =>
    have hcomma : outside false (',' :: cs) = ',' :: outside false cs := rfl
    rw [Text.outside_append, closed, hcomma, List.count_append, List.count_eq_zero_of_not_mem plain,
      List.count_cons_self, List.length_cons, ih, Nat.zero_add]

/-- The pieces with commas between them are the text. -/
theorem intercalate_eq (h : CutAtCommas cs ps) : [','].intercalate ps = cs := by
  induction h with
  | last => simp
  | @cons p cs ps _ _ rest ih =>
    cases rest <;> simp_all

/-- What no piece has outside quotes the text has not, a comma apart. -/
theorem notMem_outside (h : CutAtCommas cs ps) {d : Char} (hd : d ≠ ',')
    (hps : ∀ p ∈ ps, d ∉ outside false p) :
    d ∉ outside false cs := by
  induction h with
  | last => exact hps _ List.mem_cons_self
  | @cons p cs ps plain closed rest ih =>
    have hcomma : outside false (',' :: cs) = ',' :: outside false cs := rfl
    rw [Text.outside_append, closed, hcomma, List.mem_append, List.mem_cons, not_or, not_or]
    exact ⟨hps p List.mem_cons_self, hd, ih fun q hq => hps q (List.mem_cons_of_mem p hq)⟩

theorem quotedAfter_eq (h : CutAtCommas cs ps) (hps : ∀ p ∈ ps, quotedAfter false p = false) :
    quotedAfter false cs = false := by
  induction h with
  | last => exact hps _ List.mem_cons_self
  | @cons p cs ps plain closed rest ih =>
    rw [Text.quotedAfter_append, closed]
    exact ih fun q hq => hps q (List.mem_cons_of_mem p hq)

end CutAtCommas

/-- **A text has one list of pieces**, and that is what cutting it gives. -/
theorem commaPiecesFrom_eq_iff {cs : List Char} {ps : List (List Char)} :
    commaPiecesFrom false [] cs = ps ↔ CutAtCommas cs ps := by
  refine ⟨?_, CutAtCommas.commaPiecesFrom_eq⟩
  rintro rfl
  exact cutAtCommas_commaPiecesFrom [] List.not_mem_nil rfl cs

end LineBasic
