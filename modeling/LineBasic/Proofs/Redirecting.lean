import Mathlib
import LineBasic.Proofs.LineNumber
import LineBasic.Proofs.ListedLine
import LineBasic.Proofs.StatementReadings

/-!
# References that follow their lines

Renumbering writes new digits in place of the old ones wherever a token is a reference to a line
that moves.

* `redirect`: the tokens as they are read once the new digits are written: a reference that moves
  has its new value.
* `render_retarget`: the listing with new digits is the listing of these tokens.
* `Lexer.Apart.redirect`: they keep apart as the old ones did. A reference is a word, so a blank or
  a sign stands behind it, and behind neither do digits run on.
* `Change.aligned_redirect`: they say the same as the old tokens, but for the references.
* `parseLine_redirect`: so the line is read as before, with every reference to a line that moves
  changed.
-/

namespace LineBasic.Program

/-- The numbers that lines move to are line numbers. -/
def Moves.Valid (moves : Moves) : Prop :=
  ∀ n new, moves.get? n = some new → 1 ≤ new ∧ new ≤ Parser.maxLineNumber

/-- The new number of a line; a line that does not move keeps its own. -/
def Moves.number (moves : Moves) (n : Nat) : Nat := (moves.get? n).getD n

/-- The token as it is read after the change: a reference to a line that moves is the number of its
new place. -/
def redirectToken (moves : Moves) (s : RefState) (t : Token) : Token :=
  match (s.target? t).bind moves.get? with
  | some new => { t with kind := .number (.single (Floating.wholeFloat new)), text := toString new }
  | none => t

/-- The tokens of a line as they are read after the change. -/
def redirect (moves : Moves) : RefState → List Token → List Token
  | _, [] => []
  | s, t :: ts => redirectToken moves s t :: redirect moves (s.after t) ts

variable {moves : Moves} {s : RefState} {t u : Token} {ts us : List Token}

/-- A token stays as it is, or it is a number and becomes the new one. -/
theorem redirectToken_cases (moves : Moves) (s : RefState) (t : Token) :
    redirectToken moves s t = t ∨ ∃ n new v, s.target? t = some n ∧ moves.get? n = some new ∧
      t.kind = .number v ∧
      redirectToken moves s t =
        { t with kind := .number (.single (Floating.wholeFloat new)), text := toString new } := by
  unfold redirectToken
  cases hmove : (s.target? t).bind moves.get? with
  | none => exact Or.inl rfl
  | some new =>
    obtain ⟨n, htarget, hnew⟩ := Option.bind_eq_some_iff.mp hmove
    obtain ⟨v, hv⟩ := Change.number_of_target? htarget
    exact Or.inr ⟨n, new, v, htarget, hnew, hv, rfl⟩

theorem redirectToken_of_ne_number (h : ∀ v, t.kind ≠ .number v) : redirectToken moves s t = t := by
  unfold redirectToken
  rw [Change.target?_of_ne_number h]
  rfl

theorem redirectToken_none : redirectToken moves .none t = t := rfl

/-! ## The listing with new digits -/

/-- Tokens that a listing shows alike. -/
structure LooksLike (t u : Token) : Prop where
  column : t.column = u.column
  stop : t.stop = u.stop
  spelling : Listing.spelling t = Listing.spelling u
  word : Listing.isWord t = Listing.isWord u
  fn : Listing.isFn t = Listing.isFn u

theorem LooksLike.refl (t : Token) : LooksLike t t := ⟨rfl, rfl, rfl, rfl, rfl⟩

theorem pieces_eq_of_looksLike (h : List.Forall₂ LooksLike ts us) (ht : LooksLike t u) :
    Listing.pieces t ts = Listing.pieces u us := by
  induction h generalizing t u with
  | nil => rfl
  | cons hfirst _ ih =>
    unfold Listing.pieces Listing.gap
    rw [ih hfirst, hfirst.spelling, hfirst.column, hfirst.word, ht.stop, ht.fn, ht.word]

theorem render_eq_of_looksLike (h : List.Forall₂ LooksLike ts us) (start : Nat) :
    Listing.render start ts = Listing.render start us := by
  unfold Listing.render
  cases h with
  | nil => rfl
  | cons hfirst hrest =>
    rw [Listing.linePieces, Listing.linePieces, pieces_eq_of_looksLike hrest hfirst,
      hfirst.spelling, hfirst.column]

theorem looksLike_retarget (contains : Nat → Bool) (moves : Moves) (line : Nat) (s : RefState)
    (ts : List Token) :
    List.Forall₂ LooksLike (retarget contains moves line s ts).1 (redirect moves s ts) := by
  induction ts generalizing s with
  | nil => exact .nil
  | cons t ts ih =>
    unfold retarget redirect redirectToken RefState.after
    cases htarget : s.target? t with
    | none => exact .cons (.refl t) (ih _)
    | some n =>
      simp only [Option.bind_some]
      cases hnew : moves.get? n with
      | none => exact .cons (.refl t) (ih _)
      | some new =>
        obtain ⟨v, hv⟩ := Change.number_of_target? htarget
        refine .cons ⟨rfl, rfl, ?_, ?_, ?_⟩ (ih _)
        · simp [Listing.spelling, hv]
        · simp [Listing.isWord, hv]
        · simp [Listing.isFn, hv]

/-- **Writing new digits gives the listing of the tokens with new values.** -/
theorem render_retarget (contains : Nat → Bool) (moves : Moves) (line : Nat) (s : RefState)
    (ts : List Token) (start : Nat) :
    Listing.render start (retarget contains moves line s ts).1 =
      Listing.render start (redirect moves s ts) :=
  render_eq_of_looksLike (looksLike_retarget contains moves line s ts) start

end LineBasic.Program

/-! ## The tokens keep apart -/

namespace LineBasic.Lexer

open Listing (chars tailChars gapLength isWord isFn)
open Program (Moves RefState redirectToken redirect redirectToken_cases redirectToken_of_ne_number)

variable {moves : Moves} {s s' : RefState} {t u : Token} {ts us : List Token} {next : Option Char}

theorem gapLength_redirectToken (moves : Moves) (s s' : RefState) (t u : Token) :
    gapLength (redirectToken moves s t) (redirectToken moves s' u) = gapLength t u := by
  have hlike : ∀ s t, (redirectToken moves s t).column = t.column ∧
    (redirectToken moves s t).stop = t.stop ∧
      isFn (redirectToken moves s t) = isFn t ∧ isWord (redirectToken moves s t) = isWord t := by
    intro s t
    obtain heq | ⟨n, new, v, -, -, hkind, heq⟩ := redirectToken_cases moves s t
    · rw [heq]
      exact ⟨rfl, rfl, rfl, rfl⟩
    · rw [heq]
      exact ⟨rfl, rfl, by simp [isFn, hkind], by simp [isWord, hkind]⟩
  obtain ⟨-, hstop, hfn, hword⟩ := hlike s t
  obtain ⟨hcolumn, -, -, hword'⟩ := hlike s' u
  unfold Listing.gapLength
  rw [hstop, hfn, hword, hcolumn, hword']

/-- The first character of a token stays, or the token is a word and begins with a digit. -/
theorem head?_chars_redirectToken (moves : Moves) (s : RefState) (t : Token) :
    (chars (redirectToken moves s t)).head? = (chars t).head? ∨
      isWord t = true ∧ ∃ c, c.isDigit = true ∧ (chars (redirectToken moves s t)).head? =
        some c := by
  obtain heq | ⟨n, new, v, -, -, hkind, heq⟩ := redirectToken_cases moves s t
  · exact Or.inl (by rw [heq])
  · obtain ⟨c, ds, hc⟩ := List.exists_cons_of_ne_nil (Text.toString_ne_nil new)
    have hdigit : c.isDigit = true :=
      Text.isDigit_of_mem_toString (n := new) (by rw [hc]; exact List.mem_cons_self)
    refine Or.inr ⟨by simp [isWord, hkind], c, hdigit, ?_⟩
    rw [heq, Listing.chars_number rfl]
    change ((toString new).toList.flatMap Text.capital).head? = some c
    rw [Text.flatMap_capital_of_isDigit fun d hd =>
      Text.isDigit_of_isDigit (Text.isDigit_of_mem_toString hd), hc]
    rfl

/-- What stands behind a token stays, or it becomes a digit. A digit comes to stand behind no
word. -/
theorem behind_redirect (h : Lexed ts) (hts : Lexed (redirect moves s' ts)) {c : Char}
    (hc : c ∈ (tailChars (redirectToken moves s t) (redirect moves s' ts)).head?) :
    c ∈ (tailChars t ts).head? ∨ c.isDigit = true ∧ (isFn t = false → isWord t = false) := by
  cases ts with
  | nil => cases hc
  | cons u us =>
    obtain ⟨d, ds, hu, -⟩ := h.head
    obtain ⟨e, es, hv, -⟩ := hts.head
    rw [redirect, head?_tailChars (by simp [hv]), gapLength_redirectToken] at hc
    rw [head?_tailChars (by simp [hu])]
    by_cases hgap : gapLength t u = 0
    · rw [if_pos hgap] at hc ⊢
      rcases head?_chars_redirectToken moves s' u with heq | ⟨hword, b, hb, heq⟩
      · rw [heq] at hc
        exact Or.inl hc
      · obtain rfl := Option.some.inj (heq.symm.trans hc)
        refine Or.inr ⟨hb, fun hf => ?_⟩
        by_contra hw
        have hunword := (Listing.gapLength_eq_zero_iff.mp hgap).2 hf (by simpa using hw)
        rw [hword] at hunword
        cases hunword
    · rw [if_neg hgap] at hc ⊢
      exact Or.inl hc

/-- Behind a word stands a blank, or a token that needs none. -/
theorem Lexed.behind_word (h : Lexed ts) (hf : isFn t = false) (hw : isWord t = true) {c : Char}
    (hc : c ∈ (tailChars t ts).head?) : c = ' ' ∨ c ∈ jointChars := by
  cases ts with
  | nil => cases hc
  | cons u us =>
    obtain ⟨d, ds, hu, hjoint⟩ := h.head
    rw [head?_tailChars (by simp [hu])] at hc
    by_cases hgap : gapLength t u = 0
    · rw [if_pos hgap, hu] at hc
      obtain rfl := Option.some.inj hc
      exact Or.inr (hjoint ((Listing.gapLength_eq_zero_iff.mp hgap).2 hf hw))
    · rw [if_neg hgap] at hc
      exact Or.inl (Option.some.inj hc).symm

theorem relation?_of_isDigit {c d : Char} (h : d.isDigit = true) : relation? c d = none := by
  cases hr : relation? c d with
  | none => rfl
  | some r =>
    have hmem := (mem_of_relation? hr).2
    simp only [List.mem_cons, List.not_mem_nil, or_false] at hmem
    rcases hmem with rfl | rfl | rfl <;> exact absurd h (by decide)

/-- A token also stands in front of a digit, unless it is a word. -/
theorem Stands.digit {next' : Option Char} (h : Stands t next)
    (hnext : ∀ c ∈ next', c ∈ next ∨ c.isDigit = true ∧ (isFn t = false → isWord t = false)) :
    Stands t next' := by
  -- only words mind what stands behind them, and a relation does not end in a digit
  have hword : isFn t = false → isWord t = true → ∀ c ∈ next', c ∈ next := by
    intro hf hw c hc
    rcases hnext c hc with hold | ⟨-, hnew⟩
    · exact hold
    · rw [hnew hf] at hw
      cases hw
  cases h with
  | number kind text formed finished value stop =>
    exact .number kind text formed finished value fun c hc =>
      stop c (hword (by simp [isFn, kind]) (by simp [isWord, kind]) c hc)
  | string kind text inside => exact .string kind text inside
  | name kind formed free stop =>
    exact .name kind formed free fun c hc =>
      stop c (hword (by simp [isFn, kind]) (by simp [isWord, kind]) c hc)
  | keyword kind plain stop =>
    refine .keyword kind plain fun hdef c hc => stop hdef c (hword ?_ ?_ c hc)
    · simp [isFn, kind, hdef]
    · simp [isWord, kind, hdef, Keyword.isOperator]
  | question kind => exact .question kind
  | sign kind proper text stop =>
    refine .sign kind proper text fun d hd => ?_
    rcases hnext d hd with hold | ⟨hdigit, -⟩
    · exact stop d hold
    · exact relation?_of_isDigit hdigit
  | relation kind text pair => exact .relation kind text pair

/-- The digits of a number do not run on into what stands behind a word. -/
theorem extends?_ofNat {c : Char} (n : Nat) (h : c = ' ' ∨ c ∈ jointChars) :
    (Writing.ofNat n).extends? c = false ∧ c ≠ '.' := by
  have hchars : isPrecisionMark c = false ∧ Text.isDigit c = false ∧
      Floating.isExponentLetter c = false ∧ c ≠ '.' := by
    simp only [jointChars, List.mem_cons, List.not_mem_nil, or_false] at h
    rcases h with rfl | rfl | rfl | rfl | rfl | rfl | rfl | rfl | rfl | rfl | rfl | rfl | rfl |
      rfl | rfl | rfl | rfl | rfl | rfl | rfl <;> decide
  obtain ⟨hmark, hdigit, hletter, hpoint⟩ := hchars
  refine ⟨?_, hpoint⟩
  simp [Writing.extends?, Writing.ofNat, hmark, hdigit, hletter, hpoint]

/-- A reference with a new number stands where the old one did. -/
theorem stands_redirectToken (hmoves : moves.Valid) (h : Stands t (tailChars t ts).head?)
    (hlexed : Lexed ts) (hts : Lexed (redirect moves s' ts)) :
    Stands (redirectToken moves s t)
      (tailChars (redirectToken moves s t) (redirect moves s' ts)).head? := by
  obtain heq | ⟨n, new, v, -, hnew, hkind, heq⟩ := redirectToken_cases moves s t
  · rw [heq]
    refine h.digit fun c hc => behind_redirect (s := s) hlexed hts ?_
    rwa [heq]
  · obtain ⟨hlow, hhigh⟩ := hmoves n new hnew
    rw [heq]
    refine .number rfl ?_ (Writing.formed_ofNat new) rfl (Writing.value_ofNat (by omega) hhigh)
      fun c hc => ?_
    · exact (Writing.chars_ofNat new).symm
    · exact extends?_ofNat new (hts.behind_word rfl rfl hc)

/-- The first token of a line is no reference. -/
theorem head?_tailChars_redirect (h : Lexed ts) :
    (tailChars t (redirect moves .none ts)).head? = (tailChars t ts).head? := by
  cases ts with
  | nil => rfl
  | cons u us =>
    obtain ⟨c, ds, hu, -⟩ := h.head
    rw [redirect, Program.redirectToken_none, head?_tailChars (by simp [hu]),
      head?_tailChars (by simp [hu])]

theorem Lexed.redirect (hmoves : moves.Valid) (h : Lexed ts) (s : RefState) :
    Lexed (redirect moves s ts) := by
  induction h generalizing s with
  | nil => exact .nil
  | cons stands rest ih => exact .cons (stands_redirectToken hmoves stands rest (ih _)) (ih _)
  | @data d x text ts kind items text touch run rest ih =>
    have hd : redirectToken moves s d = d := redirectToken_of_ne_number (by simp [kind])
    have hx : ∀ s', redirectToken moves s' x = x :=
      fun _ => redirectToken_of_ne_number (by simp [items])
    -- the token behind the items is no reference either
    have hafter : (s.after d).after x = .none := by
      rw [Change.after_eq_next (by simp [items]), RefState.next, items]
    rw [Program.redirect, Program.redirect, hd, hx, hafter]
    refine .data kind items text touch (fun tail htail => run tail ?_) (ih _)
    rw [htail, head?_tailChars_redirect rest]
  | @remark r m text kind body text touch =>
    have hr : redirectToken moves s r = r := by
      rcases kind with kind | ⟨kind, -⟩ <;> exact redirectToken_of_ne_number (by simp [kind])
    have hm : ∀ s', redirectToken moves s' m = m :=
      fun _ => redirectToken_of_ne_number (by simp [body])
    rw [Program.redirect, Program.redirect, Program.redirect, hr, hm]
    exact .remark kind body text touch

theorem joined?_redirectToken (h : joined? t u = none) :
    joined? (redirectToken moves s t) (redirectToken moves s' u) = none := by
  by_contra hjoined
  obtain ⟨k, hk⟩ := Option.ne_none_iff_exists'.mp hjoined
  obtain ⟨hgo, hsecond⟩ := joined?_eq_some hk
  -- neither word of a jump is a number
  have ht : redirectToken moves s t = t := by
    obtain heq | ⟨n, new, v, -, -, -, heq⟩ := redirectToken_cases moves s t
    · exact heq
    · rw [heq] at hgo
      cases hgo
  have hu : redirectToken moves s' u = u := by
    obtain heq | ⟨n, new, v, -, -, -, heq⟩ := redirectToken_cases moves s' u
    · exact heq
    · rw [heq] at hsecond
      rcases hsecond with ⟨hto, -⟩ | ⟨hsub, -⟩
      · cases hto
      · cases hsub
  rw [ht, hu, h] at hk
  cases hk

theorem unjoined_redirect (h : ts.IsChain fun a b => joined? a b = none) (s : RefState) :
    (redirect moves s ts).IsChain fun a b => joined? a b = none := by
  induction ts generalizing s with
  | nil => exact .nil
  | cons t ts ih =>
    obtain ⟨hfirst, hrest⟩ := List.isChain_cons.mp h
    refine List.isChain_cons.mpr ⟨fun v hv => ?_, ih hrest _⟩
    cases ts with
    | nil => cases hv
    | cons u us =>
      obtain rfl := Option.some.inj hv
      exact joined?_redirectToken (hfirst u rfl)

/-- **The tokens keep apart after the change.** -/
theorem Apart.redirect (hmoves : moves.Valid) (h : Apart ts) (s : RefState) :
    Apart (redirect moves s ts) :=
  ⟨h.lexed.redirect hmoves s, unjoined_redirect h.unjoined s⟩

end LineBasic.Lexer

/-! ## The tokens say the same -/

namespace LineBasic.Change

open Listing (relistedToken relisted relistedLine trimmed trimToken nextGap)
open LineBasic.Parser (lineNumber? lineNumber?_wholeFloat)
open Program (Moves RefState redirectToken redirect redirectToken_cases redirectToken_of_ne_number)

/-- Renumbering changes the references to lines that move, and nothing else. -/
def renumbering (moves : Moves) : Change := ⟨moves.number, id, False, fun _ _ => True⟩

variable {c : Change} {moves : Moves} {s : RefState} {t : Token} {ts us : List Token}

theorem kind_relistedToken (i j gap : Nat) (t : Token) :
    (relistedToken i gap t).kind = (relistedToken j gap t).kind := by
  unfold relistedToken
  cases t.kind <;> rfl

theorem kind_relistedToken_number {v : Value} (h : t.kind = .number v) (i gap : Nat) :
    (relistedToken i gap t).kind = .number v := by
  simp [relistedToken, h, Listing.listedKind, Token.ofText]

theorem target?_relistedToken (s : RefState) (i gap : Nat) (t : Token) :
    s.target? (relistedToken i gap t) = s.target? t := by
  unfold relistedToken RefState.target?
  cases t.kind <;> rfl

theorem after_relistedToken (s : RefState) (i gap : Nat) (t : Token) :
    s.after (relistedToken i gap t) = s.after t := by
  unfold RefState.after
  rw [target?_relistedToken]
  unfold relistedToken RefState.next
  cases t.kind <;> rfl

/-- A reference names the line that it is read as. -/
theorem eq_of_target? {v : Value} {n k : Nat} (h : s.target? t = some n)
    (hkind : t.kind = .number v) (hk : lineNumber? v = some k) : k = n := by
  unfold RefState.target? at h
  split at h
  · rw [hkind] at h
    cases v with
    | text x => cases hk
    | single x | double x =>
      simp only [lineNumber?] at h hk
      cases hp : Floating.parts? x with
      | none => rw [hp] at hk; cases hk
      | some p =>
        rw [hp] at h hk
        have hwhole : p.whole = k := by
          simp only at hk
          split at hk
          · exact Option.some.inj hk
          · cases hk
        exact hwhole.symm.trans (Option.some.inj h)
  · cases h

/-- One token: a reference is followed, any other token stays. -/
theorem pair_redirectToken (hmoves : moves.Valid) (s : RefState) (i j gap : Nat) (t : Token) :
    (renumbering moves).Pair s (relistedToken i gap t)
      (relistedToken j gap (redirectToken moves s t)) := by
  refine ⟨?_, trivial⟩
  unfold Means
  rw [target?_relistedToken]
  cases htarget : s.target? t with
  | none =>
    have hstay : redirectToken moves s t = t := by
      unfold redirectToken
      rw [htarget]
      rfl
    rw [hstay]
    exact kind_relistedToken i j gap t ▸ .refl _
  | some n =>
    obtain ⟨v, hkind⟩ := number_of_target? htarget
    refine ⟨v, ?_⟩
    cases hmove : moves.get? n with
    | none =>
      have hstay : redirectToken moves s t = t := by
        unfold redirectToken
        rw [htarget, Option.bind_some, hmove]
      have hn : moves.number n = n := by rw [Moves.number, hmove]; rfl
      rw [hstay]
      refine ⟨v, kind_relistedToken_number hkind i gap, kind_relistedToken_number hkind j gap,
        fun k hk => ?_, nofun⟩
      obtain rfl := eq_of_target? htarget hkind hk
      exact hk.trans (congrArg some hn.symm)
    | some new =>
      obtain ⟨hlow, hhigh⟩ := hmoves n new hmove
      have hnumber : (redirectToken moves s t).kind =
          .number (.single (Floating.wholeFloat new)) := by
        unfold redirectToken
        rw [htarget, Option.bind_some, hmove]
      have hn : moves.number n = new := by rw [Moves.number, hmove]; rfl
      refine ⟨_, kind_relistedToken_number hkind i gap, kind_relistedToken_number hnumber j gap,
        fun k hk => ?_, nofun⟩
      obtain rfl := eq_of_target? htarget hkind hk
      exact (lineNumber?_wholeFloat (by omega) hhigh).trans (congrArg some hn.symm)

theorem nextGap_redirect (s s' : RefState) (t : Token) (ts : List Token) :
    nextGap (redirectToken moves s t) (redirect moves s' ts) = nextGap t ts := by
  cases ts with
  | nil => rfl
  | cons u us => exact Lexer.gapLength_redirectToken moves s s' t u

theorem aligned_relisted_redirect (hmoves : moves.Valid) (s : RefState) (i j gap : Nat)
    (ts : List Token) :
    (renumbering moves).Aligned s (relisted i gap ts) (relisted j gap (redirect moves s ts)) := by
  induction ts generalizing s i j gap with
  | nil => exact .nil
  | cons t ts ih =>
    unfold redirect relisted
    refine .cons (pair_redirectToken hmoves s i j gap t) ?_
    rw [after_relistedToken, nextGap_redirect]
    exact ih _ _ _ _

theorem trimToken_redirectToken (s : RefState) (t : Token) :
    trimToken (redirectToken moves s t) = redirectToken moves s (trimToken t) := by
  by_cases hnumber : ∃ v, t.kind = .number v
  · obtain ⟨v, hv⟩ := hnumber
    rw [Listing.trimToken_eq (t := t) (by simp [hv]) (by simp [hv])]
    obtain heq | ⟨n, new, w, -, -, -, heq⟩ := redirectToken_cases moves s t
    · rw [heq, Listing.trimToken_eq (by simp [hv]) (by simp [hv])]
    · rw [heq, Listing.trimToken_eq (by simp) (by simp)]
  · have hstay : ∀ v, (trimToken t).kind ≠ .number v := by
      intro v hv
      unfold trimToken at hv
      split at hv
      · cases hv
      · cases hv
      · exact hnumber ⟨v, hv⟩
    rw [redirectToken_of_ne_number fun v hv => hnumber ⟨v, hv⟩, redirectToken_of_ne_number hstay]

/-- The last token loses its blanks before the change or after it. -/
theorem trimmed_redirect (s : RefState) (ts : List Token) :
    trimmed (redirect moves s ts) = redirect moves s (trimmed ts) := by
  induction ts generalizing s with
  | nil => rfl
  | cons t ts ih =>
    cases ts with
    | nil => exact congrArg (fun u => [u]) (trimToken_redirectToken s t)
    | cons u us => exact congrArg (redirectToken moves s t :: ·) (ih (s.after t))

/-- Lists that agree may be moved, if the columns still belong together. -/
theorem Aligned.shift (h : c.Aligned s ts us) {i j : Nat}
    (hcolumn : ∀ k l, c.column k l → c.column (k + i) (l + j)) :
    c.Aligned s (ts.map (·.shift i)) (us.map (·.shift j)) := by
  induction h with
  | nil => exact .nil
  | cons pair _ ih => exact .cons ⟨pair.means, hcolumn _ _ pair.column⟩ ih

/-- **The listing after the change says the same as the listing before it**, but for the references
to lines that move. -/
theorem aligned_redirect (hmoves : moves.Valid) (i j : Nat) (ts : List Token) :
    (renumbering moves).Aligned .none ((relistedLine ts).map (·.shift i))
      ((relistedLine (redirect moves .none ts)).map (·.shift j)) := by
  refine Aligned.shift ?_ fun _ _ => id
  unfold relistedLine
  rw [trimmed_redirect]
  exact aligned_relisted_redirect hmoves .none 1 1 0 (trimmed ts)

end LineBasic.Change

/-! ## Reading the new line -/

namespace LineBasic.Program

open LineBasic.Parser (parseLine listedText maxLineNumber)

variable {moves : Moves}

theorem column_redirect {ts : List Token} (h : ∀ t ∈ ts.head?, t.column = 1) :
    ∀ t ∈ (redirect moves .none ts).head?, t.column = 1 := by
  cases ts with
  | nil => nofun
  | cons u us => exact h

/-- **A line with new references is read as before**, but for the references to lines that move. -/
theorem parseLine_redirect (hmoves : moves.Valid) {room n new : Nat} {source : String}
    {statements : List Statement}
    (h : parseLine room (listedText n source) = .ok ⟨some n, statements, source⟩) (hlow : 1 ≤ new)
    (hhigh : new ≤ maxLineNumber) (contains : Nat → Bool) :
    ∃ ts l, Lexer.tokenize source.toList = .ok ts ∧
      parseLine room (listedText new (Listing.render 1 (retarget contains moves n .none ts).1)) =
        .ok l ∧ l.number = some new ∧
      reformList moves.number id statements = reformList id id l.statements := by
  obtain ⟨-, -, rest, us, -, htokens, rfl, hparse⟩ := Parser.parseLine_ok h rfl
  have hold := Lexer.tokenize_apart htokens
  have hlisted := Listing.apart_relistedLine hold
  -- the listing with new digits is a source again
  have hnew : Lexer.Apart (redirect moves .none (Listing.relistedLine us)) :=
    hlisted.redirect hmoves .none
  have hrender : Listing.render 1 (retarget contains moves n .none (Listing.relistedLine us)).1 =
      Listing.source (redirect moves .none (Listing.relistedLine us)) := by
    rw [render_retarget]
    exact Listing.render_eq_source hnew.lexed
      (column_redirect (Listing.column_relistedLine hold.lexed))
  -- and its tokens are read as those of the old one
  have hfollows := Change.parseTokens_follows
    (Change.aligned_redirect hmoves ((toString n).length + 1) ((toString new).length + 1)
      (Listing.relistedLine us)) (room - 1)
    ((listedText n (Listing.source us)).toList.length + 1)
    ((listedText new
      (Listing.source (redirect moves .none (Listing.relistedLine us)))).toList.length + 1)
  rw [Listing.relistedLine_relistedLine hold, hparse] at hfollows
  obtain ⟨rs, hread, hsame⟩ := hfollows
  refine ⟨_, ⟨some new, rs, Listing.source (redirect moves .none (Listing.relistedLine us))⟩,
    Listing.tokenize_source hold, ?_, rfl, hsame⟩
  rw [hrender, Parser.parseLine_source _ hlow hhigh hnew, hread]
  rfl

end LineBasic.Program
