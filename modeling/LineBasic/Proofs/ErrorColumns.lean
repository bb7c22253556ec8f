import Mathlib
import LineBasic.Proofs.Storing
import LineBasic.Proofs.Redirecting

/-!
# The columns of syntax errors

An error in a numbered line names a column. A parser that refuses a line counts columns from the
line number on: behind a number that takes `k` characters with the blank after it, every column is
`k` greater than in the same text without the number. A text that cannot be cut into tokens is
another matter: its column counts from the start of the text, number or not.

* `Change.moving`: two readings of the same tokens, the second of them `k` columns farther on.
* `Lexer.tokenize_error`: where the error in a text that cannot be cut into tokens may be.
* `Parser.directLine`, `Parser.IsListed`: a line without a number, and a text that is its own
  listing.
* `Parser.error_columns`: the main result.
-/

namespace LineBasic

/-! ## Tokens that have moved -/

namespace Change

open LineBasic.Program (RefState)

/-- The second reading is that of the same tokens, some columns farther on. -/
def moving (k : Nat) : Change := ⟨id, id, True, fun i j => j = i + k⟩

theorem aligned_moving (k : Nat) (ts : List Token) (s : RefState) :
    (moving k).Aligned s (ts.map (·.shift 0)) (ts.map (·.shift k)) := by
  refine aligned_of_same rfl ?_ s
  rw [List.forall₂_map_left_iff, List.forall₂_map_right_iff, List.forall₂_same]
  exact fun t _ => ⟨.refl t.kind, rfl⟩

end Change

/-- **A line of tokens that is refused is refused farther on if it stands farther on.** -/
theorem Parser.parseTokens_moved {ts : List Token} {room n k : Nat} {e : Error}
    (h : parseTokens room n (ts.map (·.shift 0)) = .error e) : ∃ kind i, e = .atColumn kind i ∧
      parseTokens room (n + k) (ts.map (·.shift k)) = .error (.atColumn kind (i + k)) := by
  have halike := Change.parseTokens_alike (Change.aligned_moving k ts .none) room (n := n)
      (m := n + k) rfl
  rw [h] at halike
  obtain ⟨e', hmoved, hsame⟩ := halike trivial
  cases hsame with
  | @atColumn kind i j column =>
    obtain rfl : j = i + k := column
    exact ⟨kind, i, rfl, hmoved⟩

/-! ## Texts that cannot be cut into tokens -/

namespace Lexer

variable {column ending : Nat} {c : Char} {cs : List Char} {e : Error}

theorem malformed_eq_error {α : Type}
    (h : (malformed column : Except Fault α) = .error (.error e)) :
    e = .atColumn .syntaxError column := by
  cases h
  rfl

/-- A character begins nothing at its own column, or a string has no end at the end of the line. -/
theorem lexeme_error (h : lexeme column ending c cs = .error (.error e)) :
    e = .atColumn .syntaxError column ∨ e = .atColumn .syntaxError ending := by
  unfold lexeme at h
  split at h
  · left
    unfold number at h
    split at h
    · exact malformed_eq_error h
    · split at h
      · cases h
      · exact malformed_eq_error h
  · split at h
    · right
      unfold stringLexeme at h
      simp only at h
      split at h
      · exact malformed_eq_error h
      · cases h
    · left
      split_ifs at h
      unfold signLexeme at h
      split at h
      · cases h
      · split at h
        · cases h
        · split at h
          · cases h
          · exact malformed_eq_error h

/-- The error is at a column of the text or right behind it. -/
theorem scan_error (h : scan column cs = .error (.error e)) :
    ∃ i, e = .atColumn .syntaxError i ∧ column ≤ i ∧ i ≤ column + cs.length := by
  induction column, cs using scan.induct with
  | case1 column =>
    rw [scan] at h
    cases h
  | case2 column c cs ih =>
    rw [scan] at h
    cases hlexeme : lexeme column (column + 1 + cs.length) c cs with
    | error f =>
      rw [hlexeme] at h
      obtain rfl : f = .error e := Except.error.inj h
      rcases lexeme_error hlexeme with rfl | rfl
      · exact ⟨_, rfl, le_refl _, by omega⟩
      · exact ⟨_, rfl, by omega, by simp only [List.length_cons]; omega⟩
    | ok found =>
      rw [hlexeme] at h
      cases hrest : scan (column + 1 + found.more) (cs.drop found.more) with
      | error f =>
        simp only [bind, Except.bind, hrest] at h
        obtain rfl : f = .error e := Except.error.inj h
        obtain ⟨i, rfl, hlow, hhigh⟩ := ih found hrest
        -- the lexeme ends within the text, since an empty rest is no error
        have hmore : found.more < cs.length := by
          by_contra hnot
          rw [List.drop_eq_nil_of_le (by omega), scan] at hrest
          cases hrest
        rw [List.length_drop] at hhigh
        exact ⟨i, rfl, by omega, by simp only [List.length_cons]; omega⟩
      | ok ts =>
        simp only [bind, Except.bind, hrest] at h
        cases h

/-- **A text that cannot be cut into tokens is refused at a column of its own.** -/
theorem tokenize_error (h : tokenize cs = .error (.error e)) :
    ∃ i, e = .atColumn .syntaxError i ∧ 1 ≤ i ∧ i ≤ cs.length + 1 := by
  unfold tokenize at h
  cases hscan : scan 1 (Text.dropEnd isReturn cs) with
  | error f =>
    rw [hscan] at h
    obtain rfl : f = .error e := Except.error.inj h
    obtain ⟨i, rfl, hlow, hhigh⟩ := scan_error hscan
    have hlength : (Text.dropEnd isReturn cs).length ≤ cs.length :=
      (List.rdropWhile_prefix isReturn cs).length_le
    exact ⟨i, rfl, hlow, by omega⟩
  | ok ts =>
    rw [hscan] at h
    cases h

end Lexer

/-! ## Lines with and without a number -/

namespace Parser

open Listing (source relistedLine)

variable {b : String} {n : Nat} {e : Error} {room : Nat}

/-- Reads a text as a line without a number, even if there is one at its start. -/
def directLine (room : Nat) (b : String) : Except Fault SourceLine :=
  match Lexer.tokenize (Text.dropEnd Lexer.isReturn b.toList) with
  | .error f => .error f
  | .ok ts => (orFault (parseTokens (room - 1)
      ((Text.dropEnd Lexer.isReturn b.toList).length + 1) (ts.map (·.shift 0)))).map
      fun statements =>
        ⟨none, statements, String.ofList (Text.trim (Text.dropEnd Lexer.isReturn b.toList))⟩

/-- The text is its own listing. -/
def IsListed (b : String) : Prop :=
  (Lexer.tokenize (Text.dropEnd Lexer.isReturn b.toList)).map
    (fun ts => Text.dropFront Text.isBlank (Listing.render 1 ts)) = .ok b

instance (b : String) : Decidable (IsListed b) := decEq _ _

/-- A text that is its own listing is cut into the tokens of its listing. -/
theorem IsListed.tokens (h : IsListed b) : Text.dropEnd Lexer.isReturn b.toList = b.toList ∧
    ∃ ts, Lexer.tokenize b.toList = .ok ts ∧ source ts = b ∧ relistedLine ts = ts := by
  unfold IsListed at h
  cases htokens : Lexer.tokenize (Text.dropEnd Lexer.isReturn b.toList) with
  | error f =>
    rw [htokens] at h
    cases h
  | ok ts =>
    have hapart := Lexer.tokenize_apart htokens
    rw [htokens] at h
    have hsource : source ts = b := by
      rw [← Listing.dropFront_render hapart.lexed 1]
      exact Except.ok.inj h
    have hchars : b.toList = Listing.lineChars (Listing.trimmed ts) := by
      rw [← hsource, source, String.toList_ofList]
    have hreturn : Text.dropEnd Lexer.isReturn b.toList = b.toList := by
      rw [hchars, Listing.dropEnd_isReturn_source hapart.lexed]
    have hagain := Listing.tokenize_source hapart
    rw [hreturn] at htokens
    rw [hsource, htokens] at hagain
    exact ⟨hreturn, ts, htokens, hsource, (Except.ok.inj hagain).symm⟩

/-- A refusal of a text that is its own listing moves behind the number. -/
theorem parseLine_of_isListed (hlow : 1 ≤ n) (hhigh : n ≤ maxLineNumber) (hlisted : IsListed b)
    (herror : directLine room b = .error (.error e)) :
    ∃ i, e.column = some i ∧ parseLine room (listedText n b) =
      .error (.error { e with line := some n, column := some (i + (listedText n "").length) }) := by
  obtain ⟨hreturn, ts, htokens, hsource, hrelisted⟩ := hlisted.tokens
  have hlength : (listedText n b).toList.length + 1 =
      b.toList.length + 1 + ((toString n).length + 1) := by
    rw [toList_listedText, List.length_append, List.length_cons, String.length_toList]
    omega
  have hnumber : (listedText n "").length = (toString n).length + 1 := by
    rw [← String.length_toList, toList_listedText, List.length_append, String.length_toList]
    rfl
  unfold directLine at herror
  rw [hreturn, htokens] at herror
  rw [parseLine_listed room hlow hhigh, hreturn, htokens]
  simp only [hsource, hrelisted, hlength, hnumber]
  cases hparse : parseTokens (room - 1) (b.toList.length + 1) (ts.map (·.shift 0)) with
  | ok ss =>
    simp only [hparse] at herror
    cases herror
  | error e' =>
    simp only [hparse] at herror
    obtain rfl : e' = e := Fault.error.inj (Except.error.inj herror)
    obtain ⟨kind, i, rfl, hmoved⟩ := parseTokens_moved (k := (toString n).length + 1) hparse
    rw [hmoved]
    exact ⟨i, rfl, rfl⟩

/-- A text that cannot be cut into tokens is refused at the same column with a number and without
one. -/
theorem parseLine_of_tokenize_error (hlow : 1 ≤ n) (hhigh : n ≤ maxLineNumber)
    (herror : Lexer.tokenize (Text.dropEnd Lexer.isReturn b.toList) = .error (.error e)) :
    ∃ i, e = .atColumn .syntaxError i ∧ i ≤ (Text.dropEnd Lexer.isReturn b.toList).length + 1 ∧
      directLine room b = .error (.error e) ∧
      parseLine room (listedText n b) =
        .error (.error { e with line := some n, column := some i }) := by
  obtain ⟨i, rfl, -, hhigh'⟩ := Lexer.tokenize_error herror
  refine ⟨i, rfl, hhigh', ?_, ?_⟩
  · unfold directLine
    rw [herror]
  · rw [parseLine_listed room hlow hhigh, herror]
    rfl

/-- **Where an error in a numbered line is said to be.** A text without a number at its start is
read as a direct line. If it is its own listing, and a direct line is refused at a column, the
numbered line is refused in its line at that column and the length of the number with the blank. If
it cannot be cut into tokens, the column is that of the direct line: the number in front of it is
not counted. -/
theorem error_columns (room : Nat) (b : String) (hlow : 1 ≤ n) (hhigh : n ≤ maxLineNumber) :
    (lineStart? (Text.dropEnd Lexer.isReturn b.toList) = none →
      parseLine room b = directLine room b) ∧
    (∀ e, IsListed b → directLine room b = .error (.error e) → ∃ i, e.column = some i ∧
      parseLine room (listedText n b) =
      .error (.error { e with line := some n, column := some (i + (listedText n "").length) })) ∧
    (∀ e, Lexer.tokenize (Text.dropEnd Lexer.isReturn b.toList) = .error (.error e) → ∃ i,
      e = .atColumn .syntaxError i ∧ i ≤ (Text.dropEnd Lexer.isReturn b.toList).length + 1 ∧
      directLine room b = .error (.error e) ∧
      parseLine room (listedText n b) =
      .error (.error { e with line := some n, column := some i })) :=
  ⟨parseLine_direct room, fun _ => parseLine_of_isListed hlow hhigh, fun _ =>
    parseLine_of_tokenize_error hlow hhigh⟩

/-- The fault that a reading ends with. -/
def fault? {α : Type} : Except Fault α → Option Fault
  | .error f => some f
  | .ok _ => none

theorem eq_of_fault? {α : Type} {r : Except Fault α} {f : Fault} (h : fault? r = some f) :
    r = .error f := by
  cases r with
  | ok a => cases h
  | error g => rw [Option.some.inj h]

theorem error_columns_print :
    directLine 990 "PRINT (" = .error (.error (.atColumn .syntaxError 8)) ∧
    parseLine 990 "10 PRINT (" = .error (.error ⟨.syntaxError, none, some 10, some 11⟩) := by
  have hdirect : directLine 990 "PRINT (" = .error (.error (.atColumn .syntaxError 8)) :=
    eq_of_fault? (by decide +kernel)
  obtain ⟨-, hlisted, -⟩ := error_columns 990 "PRINT (" (n := 10) (by decide) (by decide)
  obtain ⟨i, hi, hparse⟩ := hlisted _ (by decide +kernel) hdirect
  obtain rfl := Option.some.inj hi
  exact ⟨hdirect, hparse⟩

/-- A character that begins nothing is the first of the text and the fourth of the line, and is
reported as the first. -/
theorem error_columns_miss_character :
    directLine 990 "@" = .error (.error (.atColumn .syntaxError 1)) ∧
    parseLine 990 "10 @" = .error (.error ⟨.syntaxError, none, some 10, some 1⟩) ∧
    parseLine 990 "10 @" ≠
      .error (.error ⟨.syntaxError, none, some 10, some (1 + (listedText 10 "").length)⟩) := by
  have hnumbered : fault? (parseLine 990 "10 @") =
      some (.error ⟨.syntaxError, none, some 10, some 1⟩) := by decide +kernel
  refine ⟨eq_of_fault? (by decide +kernel), eq_of_fault? hnumbered, fun heq => ?_⟩
  rw [heq] at hnumbered
  revert hnumbered
  decide +kernel

end Parser

end LineBasic
