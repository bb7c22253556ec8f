import Mathlib
import LineBasic.Proofs.ListedLine
import LineBasic.Proofs.StatementReadings

/-!
# Storing a line

A line with a number is read from its listing, a line without one as it is typed. Both readings give
the same statements, columns and the blanks at the end of a remark aside.

* `dataItems_blanks`, `dataItems_trimEnd`: blanks around DATA items do not show.
* `Change.storing`, `Change.aligned_relistedLine`: the tokens of a listing say the same as the
  tokens of the line.
* `Parser.parseLine_numbered`: a line is read alike with and without a number.
-/

namespace LineBasic

/-! ## Blanks around DATA items -/

variable {cs ds : List Char}

theorem dataItem_ofPiece_eq (h : Text.trim cs = Text.trim ds) :
    DataItem.ofPiece (String.ofList cs) = DataItem.ofPiece (String.ofList ds) := by
  unfold DataItem.ofPiece
  rw [String.toList_ofList, String.toList_ofList, h]

/-- Pieces that are the same but for the blanks around them. -/
def SamePieces (xs ys : List (List Char)) : Prop :=
  List.Forall₂ (fun x y => Text.trim x = Text.trim y) xs ys

theorem SamePieces.refl (xs : List (List Char)) : SamePieces xs xs :=
  List.forall₂_same.mpr fun _ _ => rfl

theorem SamePieces.dataItems_eq {s s' : String}
    (h : SamePieces (commaPiecesFrom false [] s.toList) (commaPiecesFrom false [] s'.toList)) :
    dataItems s = dataItems s' := by
  unfold dataItems commaPieces
  generalize commaPiecesFrom false [] s.toList = xs at h
  generalize commaPiecesFrom false [] s'.toList = ys at h
  rw [List.map_map, List.map_map]
  exact Change.map_eq_of_forall₂ (h.imp fun _ _ => dataItem_ofPiece_eq)

theorem ne_of_isBlank {c d : Char} (h : Text.isBlank c = true) (hd : Text.isBlank d = false) :
    c ≠ d := by
  rintro rfl
  rw [h] at hd
  cases hd

/-- Blanks in front of the first piece. -/
theorem samePieces_blanks_piece (hblank : ∀ c ∈ ds, Text.isBlank c = true) (quoted : Bool)
    (piece : List Char) :
    SamePieces (commaPiecesFrom quoted (piece ++ ds) cs) (commaPiecesFrom quoted piece cs) := by
  have htrim : ∀ piece : List Char, Text.trim (piece ++ ds).reverse = Text.trim piece.reverse := by
    intro piece
    rw [List.reverse_append, Text.trim_blanks_append fun c hc => hblank c (List.mem_reverse.mp hc)]
  induction cs generalizing quoted piece with
  | nil => exact .cons (htrim piece) .nil
  | cons c cs ih =>
    unfold commaPiecesFrom
    split
    · exact .cons (htrim piece) (SamePieces.refl _)
    · rw [← List.cons_append]
      exact ih _ _

theorem commaPiecesFrom_blanks (hblank : ∀ c ∈ ds, Text.isBlank c = true) (quoted : Bool)
    (piece : List Char) :
    commaPiecesFrom quoted piece (ds ++ cs) = commaPiecesFrom quoted (ds.reverse ++ piece) cs := by
  induction ds generalizing piece with
  | nil => rfl
  | cons c ds ih =>
    have hc := hblank c (by simp)
    have hcomma : c ≠ ',' := ne_of_isBlank hc (by decide)
    have hquote : c ≠ '"' := ne_of_isBlank hc (by decide)
    rw [List.cons_append, commaPiecesFrom, if_neg (by simp [hcomma]), if_neg hquote,
      ih fun d hd => hblank d (List.mem_cons_of_mem c hd), List.reverse_cons, List.append_assoc]
    rfl

/-- Blanks behind the last piece. -/
theorem samePieces_append_blanks (hblank : ∀ c ∈ ds, Text.isBlank c = true) (quoted : Bool)
    (piece : List Char) :
    SamePieces (commaPiecesFrom quoted piece (cs ++ ds)) (commaPiecesFrom quoted piece cs) := by
  induction cs generalizing quoted piece with
  | nil =>
    have hpieces := @commaPiecesFrom_blanks [] ds hblank quoted piece
    rw [List.append_nil] at hpieces
    rw [List.nil_append, hpieces]
    refine .cons ?_ .nil
    rw [List.reverse_append, List.reverse_reverse, Text.trim_append_blanks hblank]
  | cons c cs ih =>
    rw [List.cons_append]
    unfold commaPiecesFrom
    split
    · exact .cons rfl (ih _ _)
    · exact ih _ _

theorem dataItems_blanks (n : Nat) (s : String) :
    dataItems (String.ofList (List.replicate n ' ' ++ s.toList)) = dataItems s := by
  have hblank : ∀ c ∈ List.replicate n ' ', Text.isBlank c = true := by
    intro c hc
    rw [List.eq_of_mem_replicate hc]
    decide
  refine SamePieces.dataItems_eq ?_
  rw [String.toList_ofList, commaPiecesFrom_blanks hblank, List.append_nil]
  exact samePieces_blanks_piece (fun c hc => hblank c (List.mem_reverse.mp hc)) false []

theorem dataItems_trimEnd (s : String) : dataItems (Listing.trimEnd s) = dataItems s := by
  obtain ⟨ds, hsplit, hblank⟩ := Text.exists_append_dropEnd Text.isBlank s.toList
  have hpieces := @samePieces_append_blanks (Text.dropEnd Text.isBlank s.toList) ds hblank false []
  rw [← hsplit] at hpieces
  refine (SamePieces.dataItems_eq ?_).symm
  rwa [Listing.trimEnd, String.toList_ofList]

/-! ## The tokens of a listing -/

namespace Change

open LineBasic.Program (RefState)
open Listing (trimEnd trimToken trimmed relistedToken relisted relistedLine)

/-- Storing a line keeps all but the blanks at the end of a remark. -/
def storing : Change := ⟨id, trimEnd, True, fun _ _ => True⟩

theorem trimEnd_trimEnd (s : String) : trimEnd (trimEnd s) = trimEnd s := by
  unfold trimEnd
  rw [String.toList_ofList, Text.dropEnd_dropEnd]

theorem same_relistedToken (column gap : Nat) (t : Token) :
    storing.Same t.kind (relistedToken column gap t).kind := by
  unfold relistedToken
  split
  · rename_i s hk
    rw [hk]
    exact .dataText (dataItems_blanks gap s).symm
  · change storing.Same t.kind (Listing.listedKind t.kind)
    unfold Listing.listedKind
    split
    · rename_i hk
      rw [hk]
      exact .question
    · exact .refl _

/-- The last token may have lost the blanks at its end. -/
theorem same_relistedToken_trimToken (column gap : Nat) (t : Token) :
    storing.Same t.kind (relistedToken column gap (trimToken t)).kind := by
  unfold trimToken
  split
  · rename_i s hk
    rw [hk]
    exact .remark (trimEnd_trimEnd s).symm
  · rename_i s hk
    rw [hk]
    exact .dataText (((dataItems_blanks gap _).trans (dataItems_trimEnd s)).symm)
  · exact same_relistedToken column gap t

theorem same_relisted_trimmed (column gap : Nat) (ts : List Token) :
    List.Forall₂ (fun t u => storing.Same t.kind u.kind ∧ storing.column t.column u.column) ts
      (relisted column gap (trimmed ts)) := by
  induction ts generalizing column gap with
  | nil => exact .nil
  | cons t ts ih =>
    cases ts with
    | nil => exact .cons ⟨same_relistedToken_trimToken column gap t, trivial⟩ .nil
    | cons u us => exact .cons ⟨same_relistedToken column gap t, trivial⟩ (ih _ _)

/-- The tokens of a listing say the same as the tokens of the line, wherever the two stand. -/
theorem aligned_relistedLine (i j : Nat) (ts : List Token) :
    storing.Aligned .none (ts.map (·.shift i)) ((relistedLine ts).map (·.shift j)) := by
  refine aligned_of_same rfl ?_ _
  rw [List.forall₂_map_left_iff, List.forall₂_map_right_iff]
  exact same_relisted_trimmed 1 0 ts

end Change

/-! ## Reading a line with and without a number -/

namespace Parser

open Listing (source relistedLine trimEnd)

/-- Two readings of a line: both give the same statements, columns and the blanks at the end of a
remark aside, or both fail with an error of the same kind. -/
inductive SameReading : Except Fault SourceLine → Except Fault SourceLine → Prop where
  | ok {l l' : SourceLine}
      (same : reformList id trimEnd l.statements = reformList id trimEnd l'.statements) :
      SameReading (.ok l) (.ok l')
  | error {e e' : Error} (kind : e.kind = e'.kind) : SameReading (.error (.error e))
      (.error (.error e'))
  | crash (x : Crash) : SameReading (.error (.crash x)) (.error (.crash x))

variable {b : String} {n : Nat}

/-- A line without a number is read from its tokens. -/
theorem parseLine_direct (room : Nat)
    (h : lineStart? (Text.dropEnd Lexer.isReturn b.toList) = none) :
    parseLine room b = match Lexer.tokenize (Text.dropEnd Lexer.isReturn b.toList) with
      | .error e => .error e
      | .ok ts =>
        (orFault (parseTokens (room - 1) ((Text.dropEnd Lexer.isReturn b.toList).length + 1)
            (ts.map (·.shift 0)))).map
          fun statements =>
            ⟨none, statements,
              String.ofList (Text.trim (Text.dropEnd Lexer.isReturn b.toList))⟩ := by
  unfold parseLine tokensAfter
  simp only [h, List.drop_zero]
  cases Lexer.tokenize (Text.dropEnd Lexer.isReturn b.toList) with
  | error e => rfl
  | ok ts =>
    simp only [bind, Except.bind, pure, Except.pure]
    cases orFault
      (parseTokens (room - 1) ((Text.dropEnd Lexer.isReturn b.toList).length + 1)
        (ts.map (·.shift 0))) <;> rfl

/-- Placing an error in a line does not change what two readings have in common. -/
theorem SameReading.placeFault {r r' : Except Fault SourceLine} (h : SameReading r r') :
    SameReading r (placeFault n r') := by
  cases h with
  | ok same => exact .ok same
  | crash x => exact .crash x
  | @error e e' kind =>
    refine .error ?_
    unfold Error.inLine
    split <;> exact kind

/-- **Storing a line does not change its meaning**: a line that does not start with a number is read
alike when it is typed and when it is stored under a number, in the same room for nested parts. -/
theorem parseLine_numbered (room : Nat)
    (hdirect : lineStart? (Text.dropEnd Lexer.isReturn b.toList) = none) (hlow : 1 ≤ n)
    (hhigh : n ≤ maxLineNumber) :
    SameReading (parseLine room b) (parseLine room (listedText n b)) := by
  rw [parseLine_direct room hdirect, parseLine_listed room hlow hhigh]
  refine SameReading.placeFault ?_
  cases Lexer.tokenize (Text.dropEnd Lexer.isReturn b.toList) with
  | error e =>
    cases e with
    | error e => exact .error rfl
    | crash x => exact .crash x
  | ok ts =>
    -- the tokens typed and the tokens listed are read alike
    have hfollows := Change.parseTokens_follows
      (Change.aligned_relistedLine 0 ((toString n).length + 1) ts) (room - 1)
      ((Text.dropEnd Lexer.isReturn b.toList).length + 1)
        ((listedText n (source ts)).toList.length + 1)
    simp only
    cases hparse : parseTokens (room - 1) ((Text.dropEnd Lexer.isReturn b.toList).length + 1)
        (ts.map (·.shift 0)) with
    | ok ss =>
      rw [hparse] at hfollows
      obtain ⟨rs, hlisted, hsame⟩ := hfollows
      rw [hlisted]
      exact .ok hsame
    | error e =>
      rw [hparse] at hfollows
      obtain ⟨e', hlisted, hkind⟩ := hfollows trivial
      rw [hlisted]
      exact .error hkind.symm

theorem parseLine_numbered_print :
    (parseLine 990 "?A, -1.5:IF A THEN 20 ELSE REM  end  ").isOk = true ∧
      SameReading (parseLine 990 "?A, -1.5:IF A THEN 20 ELSE REM  end  ")
        (parseLine 990 (listedText 65529 "?A, -1.5:IF A THEN 20 ELSE REM  end  ")) :=
  ⟨by decide +kernel, parseLine_numbered 990 (by decide +kernel) (by decide) (by decide)⟩

end Parser

end LineBasic
