import Mathlib
import LineBasic.Proofs.Relisting

/-!
# The end of a line

A listed line has no blanks at its end. Only a remark and DATA items can end in blanks, so the
blanks can as well be dropped from the last token.

* `trimmed`: the tokens with the last one cut.
* `lineChars_trimmed`: their listing is the listing without blanks at its end.
* `Lexed.trimmed`: they keep apart.
-/

namespace LineBasic.Listing

/-- The text without blanks at its end. -/
def trimEnd (s : String) : String := String.ofList (Text.dropEnd Text.isBlank s.toList)

/-- A remark or DATA items without blanks at the end. -/
def trimToken (t : Token) : Token :=
  match t.kind with
  | .remark s => { t with kind := .remark (trimEnd s), text := trimEnd s }
  | .dataText s => { t with kind := .dataText (trimEnd s), text := trimEnd s }
  | _ => t

/-- The tokens of a line with the last one cut. -/
def trimmed : List Token → List Token
  | [] => []
  | [t] => [trimToken t]
  | t :: u :: us => t :: trimmed (u :: us)

theorem trimToken_eq {t : Token} (hr : ∀ s, t.kind ≠ .remark s) (hd : ∀ s, t.kind ≠ .dataText s) :
    trimToken t = t := by
  unfold trimToken
  split
  · exact absurd (by assumption) (hr _)
  · exact absurd (by assumption) (hd _)
  · rfl

theorem trimmed_cons {t : Token} {ts : List Token} (hr : ∀ s, t.kind ≠ .remark s)
    (hd : ∀ s, t.kind ≠ .dataText s) :
    trimmed (t :: ts) = t :: trimmed ts := by
  cases ts with
  | nil =>
    unfold trimmed
    rw [trimToken_eq hr hd]
  | cons u us => rfl

end LineBasic.Listing

namespace LineBasic.Text

/-- The blanks, by their places in Unicode. -/
def blankRanges : List (Nat × Nat) :=
  [(0x09, 0x0D), (0x1C, 0x20), (0x85, 0x85), (0xA0, 0xA0), (0x1680, 0x1680), (0x2000, 0x200A),
   (0x2028, 0x2029), (0x202F, 0x202F), (0x205F, 0x205F), (0x3000, 0x3000)]

theorem exists_range_of_isBlank {c : Char} (h : isBlank c = true) :
    ∃ r ∈ blankRanges, r.1 ≤ c.toNat ∧ c.toNat ≤ r.2 := by
  simp only [isBlank, Bool.or_eq_true, Bool.and_eq_true, decide_eq_true_eq, beq_iff_eq] at h
  simp only [blankRanges, List.mem_cons, List.not_mem_nil, or_false, exists_eq_or_imp,
    exists_eq_left]
  omega

theorem zeros_apart_blank : ∀ z ∈ zeros, ∀ r ∈ blankRanges, z + 9 < r.1 ∨ r.2 < z := by
  decide

theorem not_isBlank_of_isDigit {c : Char} (h : isDigit c = true) : isBlank c = false := by
  obtain ⟨z, hz, hlo, hhi⟩ := exists_zero_of_isDigit h
  by_contra hb
  obtain ⟨r, hr, hfirst, hlast⟩ := exists_range_of_isBlank (by simpa using hb)
  have := zeros_apart_blank z hz r hr
  omega

theorem not_isBlank_of_visible {c : Char} (h : 0x21 ≤ c.toNat ∧ c.toNat ≤ 0x7E) :
    isBlank c = false := by
  by_contra hb
  simp only [isBlank, Bool.not_eq_false, Bool.or_eq_true, Bool.and_eq_true, decide_eq_true_eq,
    beq_iff_eq] at hb
  omega

theorem not_isBlank_of_isAlpha {c : Char} (h : c.isAlpha = true) : isBlank c = false := by
  rw [isAlpha_iff_toNat] at h
  exact not_isBlank_of_visible (by omega)

end LineBasic.Text

namespace LineBasic.Lexer

open Listing (chars tailChars lineChars gapLength isWord isFn nextGap trimToken trimmed trimEnd)

variable {t u : Token} {ts us : List Token} {next : Option Char}

/-! ## The last character of a token -/

theorem Writing.Formed.not_isBlank {w : Writing} (h : w.Formed) :
    ∀ c ∈ w.chars, Text.isBlank c = false := by
  intro c hc
  have hpoint : Text.isBlank '.' = false := by decide
  unfold Writing.chars Writing.ending at hc
  simp only [List.mem_append] at hc
  rcases hc with hc | hc | hc | hc | hc
  · exact Text.not_isBlank_of_isDigit (h.whole c hc)
  · split at hc
    · rwa [List.mem_singleton.mp hc]
    · exact absurd hc (by simp)
  · exact Text.not_isBlank_of_isDigit (h.fraction c hc)
  · cases he : w.exponent with
    | none => rw [he] at hc; exact absurd hc (by simp [Writing.exponentChars])
    | some e =>
      have hf := h.exponent e he
      rw [he] at hc
      simp only [Writing.exponentChars, List.mem_cons, List.mem_append, Option.mem_toList] at hc
      rcases hc with rfl | hc | hc
      · have := hf.letter
        simp only [Floating.isExponentLetter, Bool.or_eq_true, decide_eq_true_eq] at this
        rcases this with ((hl | hl) | hl) | hl <;> rw [hl] <;> decide
      · have := hf.sign c hc
        simp only [Floating.isSign, Bool.or_eq_true, decide_eq_true_eq] at this
        rcases this with hl | hl <;> rw [hl] <;> decide
      · exact Text.not_isBlank_of_isDigit (hf.digits c hc)
  · have := h.mark c (Option.mem_toList.mp hc)
    simp only [isPrecisionMark, Bool.or_eq_true, decide_eq_true_eq] at this
    rcases this with (hl | hl) | hl <;> rw [hl] <;> decide

theorem Run.Formed.not_isBlank {r : Run} (h : r.Formed) :
    ∀ c ∈ r.chars, Text.isBlank c = false := by
  intro c hc
  unfold Run.chars at hc
  simp only [List.mem_append, Option.mem_toList] at hc
  rcases hc with hc | hc | hc
  · exact Text.not_isBlank_of_isAlpha (h.letters c hc)
  · have hd := Char.isDigit_iff_toNat.mp (h.digits c hc)
    have h0 : '0'.toNat = 48 := rfl
    have h9 : '9'.toNat = 57 := rfl
    exact Text.not_isBlank_of_visible (by omega)
  · have := h.mark c hc
    simp only [isSigil, Bool.or_eq_true, decide_eq_true_eq] at this
    rcases this with ((hl | hl) | hl) | hl <;> rw [hl] <;> decide

theorem spelling_not_isBlank (k : Keyword) : ∀ c ∈ k.spelling.toList, Text.isBlank c = false := by
  intro c hc
  rw [← List.takeWhile_append_dropWhile (p := Char.isUpper) (l := k.spelling.toList),
    List.mem_append] at hc
  rcases hc with hc | hc
  · have hupper := List.mem_takeWhile_imp hc
    exact Text.not_isBlank_of_isAlpha (by simp [Char.isAlpha, hupper])
  · rcases (spelling_parts k (mem_all k)).2 with hnil | hmark
    · rw [hnil] at hc
      exact absurd hc (by simp)
    · rw [hmark, List.mem_singleton] at hc
      rw [hc]
      decide

theorem not_isBlank_of_mem_signChars {c : Char} (h : c ∈ signChars) : Text.isBlank c = false := by
  simp only [signChars, List.mem_cons, List.not_mem_nil, or_false] at h
  rcases h with rfl | rfl | rfl | rfl | rfl | rfl | rfl | rfl | rfl | rfl | rfl | rfl | rfl | rfl |
    rfl <;> decide

/-- A token that stands does not begin or end with a blank. -/
theorem Stands.not_isBlank (h : Stands t next) {c : Char}
    (hc : c ∈ (chars t).head? ∨ c ∈ (chars t).getLast?) :
    Text.isBlank c = false := by
  have hmem : c ∈ chars t := by
    rcases hc with hc | hc
    · exact List.mem_of_mem_head? hc
    · exact List.mem_of_getLast? hc
  cases h with
  | @number w v kind text formed finished value stop =>
    rw [Listing.chars_number kind, text, flatMap_capital_chars formed] at hmem
    exact formed.capital.not_isBlank c hmem
  | @string s kind text inside =>
    have hchars : chars t = ('"' :: s.toList) ++ ['"'] := by
      simp [chars, Listing.spelling, kind, text]
    rw [hchars, List.getLast?_concat] at hc
    obtain rfl : '"' = c := by simpa using hc
    decide
  | @name r kind formed free stop =>
    have hchars : chars t = r.capital.chars := by simp [chars, Listing.spelling, kind]
    exact formed.capital.not_isBlank c (hchars ▸ hmem)
  | @keyword k kind plain stop =>
    rw [Listing.chars_keyword kind] at hmem
    exact spelling_not_isBlank k c hmem
  | question kind =>
    have hchars : chars t = Keyword.PRINT.spelling.toList := by simp [chars, Listing.spelling, kind]
    exact spelling_not_isBlank .PRINT c (hchars ▸ hmem)
  | sign kind proper text stop =>
    rw [chars, (listed_of_sign? kind proper).1, text, List.mem_singleton] at hmem
    exact hmem ▸ not_isBlank_of_mem_signChars (mem_of_sign? kind)
  | @relation d e r kind text pair =>
    have hchars : chars t = [d, e] := by simp [chars, Listing.spelling, kind, text]
    obtain ⟨hd, he⟩ := mem_of_relation? pair
    simp only [List.mem_cons, List.not_mem_nil, or_false] at hd he
    rw [hchars, List.mem_cons, List.mem_singleton] at hmem
    rcases hmem with rfl | rfl
    · rcases hd with rfl | rfl | rfl <;> decide
    · rcases he with rfl | rfl | rfl <;> decide

theorem Lexed.not_isBlank (h : Lexed (t :: ts)) :
    ∀ c ∈ (chars t).head?, Text.isBlank c = false := by
  intro c hc
  cases h with
  | cons stands rest => exact stands.not_isBlank (Or.inl hc)
  | data kind =>
    rw [Listing.chars_keyword kind] at hc
    exact spelling_not_isBlank .DATA c (List.mem_of_mem_head? hc)
  | remark kind =>
    rcases kind with kind | ⟨kind, mark⟩
    · rw [Listing.chars_keyword kind] at hc
      exact spelling_not_isBlank .REM c (List.mem_of_mem_head? hc)
    · have hr : chars t = ['\''] := by simp [chars, Listing.spelling, kind, mark]
      obtain rfl : '\'' = c := by simpa [hr] using hc
      decide

/-! ## Cutting the last token -/

theorem Stands.ne_remark (h : Stands t next) (s : String) : t.kind ≠ .remark s := by
  cases h with
  | number kind | string kind | name kind | keyword kind | question kind | relation kind =>
    simp [kind]
  | sign kind =>
    unfold sign? at kind
    intro hs
    rw [hs] at kind
    split at kind <;> exact absurd kind (by simp)

theorem Lexed.ne_remark (h : Lexed (t :: ts)) (s : String) : t.kind ≠ .remark s := by
  cases h with
  | cons stands => exact stands.ne_remark s
  | data kind => simp [kind]
  | remark kind => rcases kind with kind | ⟨kind, -⟩ <;> simp [kind]

theorem Lexed.trimmed_cons (h : Lexed (t :: ts)) : trimmed (t :: ts) = t :: trimmed ts :=
  Listing.trimmed_cons h.ne_remark h.ne_dataText

theorem nextGap_trimmed (h : Lexed ts) : nextGap t (trimmed ts) = nextGap t ts := by
  cases ts with
  | nil => rfl
  | cons u us => rw [h.trimmed_cons]; rfl

theorem head?_tailChars_trimmed (h : Lexed ts) :
    (tailChars t (trimmed ts)).head? = (tailChars t ts).head? := by
  cases ts with
  | nil => rfl
  | cons u us =>
    obtain ⟨c, ds, hu, -⟩ := h.head
    rw [h.trimmed_cons, head?_tailChars (by simp [hu]), head?_tailChars (by simp [hu])]

theorem lineChars_ne_nil (h : Lexed ts) (hne : ts ≠ []) : lineChars (trimmed ts) ≠ [] := by
  cases ts with
  | nil => exact absurd rfl hne
  | cons u us =>
    obtain ⟨c, ds, hu, -⟩ := h.head
    rw [h.trimmed_cons, Listing.lineChars_cons, hu]
    simp

/-- The blanks at the end are those of the tokens behind the first. -/
theorem dropEnd_tail (h : Lexed ts) (hne : ts ≠ [])
    (hline : Text.dropEnd Text.isBlank (lineChars ts) =
    lineChars (trimmed ts)) (cs : List Char) :
    Text.dropEnd Text.isBlank (cs ++ tailChars t ts) = cs ++ tailChars t (trimmed ts) := by
  have hsome := lineChars_ne_nil h hne
  rw [Listing.tailChars_eq, Listing.tailChars_eq, nextGap_trimmed h, ← List.append_assoc,
    Text.dropEnd_append (by rwa [hline]), hline, List.append_assoc]

theorem joinsWord_trimEnd {s : String} (h : Text.dropEnd Text.isBlank s.toList ≠ []) :
    Listing.joinsWord (trimEnd s) = Listing.joinsWord s := by
  obtain ⟨c, ds, hc⟩ := List.exists_cons_of_ne_nil h
  obtain ⟨tail, htail⟩ : Text.dropEnd Text.isBlank s.toList <+: s.toList :=
    List.rdropWhile_prefix _ _
  rw [hc, List.cons_append] at htail
  unfold Listing.joinsWord trimEnd
  rw [String.toList_ofList, hc, ← htail]
  rfl

/-- The items of DATA at the end of a line, with the blank in front of them. -/
theorem dropEnd_data {d x : Token} {s : String} (kind : d.kind = .keyword .DATA)
    (items : x.kind = .dataText s) (text : x.text = s) (touch : x.column = d.stop) :
    Text.dropEnd Text.isBlank (lineChars [d, x]) = lineChars [d, trimToken x] := by
  have hx : chars x = s.toList := by simp [chars, Listing.spelling, items, text]
  have hx' : trimToken x = { x with kind := .dataText (trimEnd s), text := trimEnd s } := by
    simp [trimToken, items]
  have hchars : chars (trimToken x) = Text.dropEnd Text.isBlank s.toList := by
    rw [hx']
    simp [chars, Listing.spelling, trimEnd]
  have hline : ∀ y : Token, lineChars [d, y] = (chars d ++ List.replicate (gapLength d y) ' ') ++
      chars y := by
    intro y
    rw [Listing.lineChars_cons, Listing.tailChars_cons, Listing.gap_toList, Listing.lineChars_cons,
      Listing.tailChars_nil, List.append_nil, List.append_assoc]
  rw [hline, hline, hx, hchars]
  by_cases hs : Text.dropEnd Text.isBlank s.toList = []
  · -- no items: the blank goes too
    have hword : isWord (trimToken x) = false := by
      rw [hx']
      change Listing.joinsWord (trimEnd s) = false
      rw [trimEnd, hs]
      rfl
    have hgap : gapLength d (trimToken x) = 0 :=
      Listing.gapLength_eq_zero_iff.mpr ⟨by rw [hx']; exact touch.le, fun _ _ => hword⟩
    have hblanks : ∀ c ∈ List.replicate (gapLength d x) ' ', Text.isBlank c = true := by
      intro c hc
      rw [List.eq_of_mem_replicate hc]
      decide
    rw [hs, hgap, Text.dropEnd_append_of_all (Text.dropEnd_eq_nil_iff.mp hs),
      Text.dropEnd_append_of_all hblanks, Text.dropEnd_eq_self fun c hc => ?_]
    · simp
    · rw [Listing.chars_keyword kind] at hc
      exact spelling_not_isBlank .DATA c (List.mem_of_getLast? hc)
  · have hgap : gapLength d (trimToken x) = gapLength d x := by
      have hword : isWord (trimToken x) = isWord x := by
        rw [hx']
        simp only [isWord, items]
        exact joinsWord_trimEnd hs
      unfold gapLength
      rw [hword, hx']
    rw [Text.dropEnd_append hs, hgap]

/-- **The listing of the cut tokens is the listing without blanks at its end.** -/
theorem lineChars_trimmed (h : Lexed ts) :
    Text.dropEnd Text.isBlank (lineChars ts) = lineChars (trimmed ts) := by
  induction h with
  | nil => rfl
  | @cons t ts stands rest ih =>
    rw [(Lexed.cons stands rest).trimmed_cons, Listing.lineChars_cons, Listing.lineChars_cons]
    by_cases hne : ts = []
    · subst hne
      rw [Listing.tailChars_nil, List.append_nil, Text.dropEnd_eq_self fun c hc =>
        stands.not_isBlank (Or.inr hc)]
      exact (List.append_nil _).symm
    · exact dropEnd_tail rest hne ih _
  | @data d x s ts kind items text touch run rest ih =>
    cases ts with
    | nil => exact dropEnd_data kind items text touch
    | cons u us =>
      have hcut : trimmed (d :: x :: u :: us) = d :: x :: trimmed (u :: us) := rfl
      have htail : ∀ vs, tailChars d (x :: vs) = (Listing.gap d x).toList ++ chars x ++
          tailChars x vs := by
        intro vs
        rw [Listing.tailChars_cons, Listing.lineChars_cons, List.append_assoc]
      rw [hcut, Listing.lineChars_cons, Listing.lineChars_cons, htail, htail, ← List.append_assoc,
        dropEnd_tail rest (by simp) ih, List.append_assoc]
  | @remark r m s kind body text touch =>
    have hcut : trimmed [r, m] =
        [r, { m with kind := .remark (trimEnd s), text := trimEnd s }] := by
      simp [trimmed, trimToken, body]
    have hline : lineChars [r, { m with kind := .remark (trimEnd s), text := trimEnd s }] =
        chars r ++ (trimEnd s).toList :=
      (lineChars_remark (m := { m with kind := .remark (trimEnd s), text := trimEnd s }) rfl
        rfl touch).2
    rw [hcut, (lineChars_remark body text touch).2, hline]
    have hlast : ∀ c ∈ (chars r).getLast?, Text.isBlank c = false := by
      rcases kind with kind | ⟨kind, mark⟩
      · rw [Listing.chars_keyword kind]
        exact fun c hc => spelling_not_isBlank .REM c (List.mem_of_getLast? hc)
      · have hr : chars r = ['\''] := by simp [chars, Listing.spelling, kind, mark]
        rw [hr]
        simp
        decide
    rw [trimEnd, String.toList_ofList]
    by_cases hs : Text.dropEnd Text.isBlank s.toList = []
    · rw [hs, Text.dropEnd_append_of_all (Text.dropEnd_eq_nil_iff.mp hs),
        Text.dropEnd_eq_self hlast, List.append_nil]
    · exact Text.dropEnd_append hs

/-- A start of DATA items that run to the end of the line does so too. -/
theorem dataRun_of_append {quoted : Bool} {cs ds : List Char}
    (h : dataRun quoted (cs ++ ds) = cs ++ ds) :
    dataRun quoted cs = cs := by
  induction cs generalizing quoted with
  | nil => rfl
  | cons c cs ih =>
    rw [List.cons_append, dataRun] at h
    rw [dataRun]
    split at h
    · exact absurd h (by simp)
    · rename_i hc
      rw [if_neg hc, ih (List.cons.inj h).2]

/-- **The cut tokens keep apart.** -/
theorem Lexed.trimmed (h : Lexed ts) : Lexed (Listing.trimmed ts) := by
  induction h with
  | nil => exact .nil
  | @cons t ts stands rest ih =>
    rw [(Lexed.cons stands rest).trimmed_cons]
    exact .cons (by rwa [head?_tailChars_trimmed rest]) ih
  | @data d x s ts kind items text touch run rest ih =>
    cases ts with
    | nil =>
      have hcut : Listing.trimmed [d, x] =
          [d, { x with kind := .dataText (trimEnd s), text := trimEnd s }] := by
        simp [Listing.trimmed, trimToken, items]
      rw [hcut]
      refine .data kind rfl rfl touch (fun tail htail => ?_) .nil
      obtain rfl : tail = [] := List.head?_eq_none_iff.mp htail
      obtain ⟨ds, hds⟩ : Text.dropEnd Text.isBlank s.toList <+: s.toList :=
        List.rdropWhile_prefix _ _
      rw [List.append_nil, trimEnd, String.toList_ofList]
      have hrun := run [] rfl
      rw [List.append_nil, ← hds] at hrun
      exact dataRun_of_append hrun
    | cons u us =>
      have hcut : Listing.trimmed (d :: x :: u :: us) = d :: x :: Listing.trimmed (u :: us) := rfl
      rw [hcut]
      exact .data kind items text touch (by rwa [head?_tailChars_trimmed rest]) ih
  | @remark r m s kind body text touch =>
    have hcut : Listing.trimmed [r, m] =
        [r, { m with kind := .remark (trimEnd s), text := trimEnd s }] := by
      simp [Listing.trimmed, trimToken, body]
    rw [hcut]
    exact .remark kind rfl rfl touch

/-! ## Jumps of two words -/

/-- Tokens that make no jump make none after a change that brings in none of its words. -/
theorem joined?_eq_none_of_kind {a b a' b' : Token} (h : joined? a b = none)
    (ha : a'.kind = .name .real "GO" → a.kind = a'.kind)
    (hb : b'.kind = .keyword .TO ∨ b'.kind = .name .real "SUB" → b.kind = b'.kind) :
    joined? a' b' = none := by
  cases hk : joined? a' b' with
  | none => rfl
  | some k =>
    obtain ⟨hgo, hsecond⟩ := joined?_eq_some hk
    have hkinds : joined? a b = joined? a' b' := by
      unfold joined?
      rw [ha hgo, hb (hsecond.imp And.left And.left)]
    exact absurd (hkinds.symm.trans h) (by simp [hk])

theorem unjoined_trimmed (h : ts.IsChain fun a b => joined? a b = none) :
    (trimmed ts).IsChain fun a b => joined? a b = none := by
  induction ts using Listing.trimmed.induct with
  | case1 => exact h
  | case2 t => exact .singleton _
  | case3 t u us ih =>
    rw [List.isChain_cons_cons] at h
    refine (ih h.2).cons fun v hv => ?_
    cases us with
    | nil =>
      obtain rfl : trimToken u = v := by simpa [trimmed] using hv
      refine joined?_eq_none_of_kind h.1 (fun _ => rfl) fun hw => ?_
      unfold trimToken at hw ⊢
      split at hw <;> simp_all
    | cons w ws =>
      obtain rfl : u = v := by simpa [trimmed] using hv
      exact h.1

theorem unjoined_relisted (h : ts.IsChain fun a b => joined? a b = none) (column gap : Nat) :
    (Listing.relisted column gap ts).IsChain fun a b => joined? a b = none := by
  induction ts generalizing column gap with
  | nil => exact h
  | cons t ts ih =>
    obtain ⟨hfirst, hrest⟩ := List.isChain_cons.mp h
    refine (ih hrest _ _).cons fun v hv => ?_
    cases ts with
    | nil => exact absurd hv (by simp [Listing.relisted])
    | cons u us =>
      obtain rfl := Option.some.inj hv
      refine joined?_eq_none_of_kind (hfirst u rfl) (fun hgo => ?_) fun hw => ?_
      · unfold Listing.relistedToken Listing.listedKind at hgo ⊢
        cases hk : t.kind <;> simp_all [Token.ofText]
      · unfold Listing.relistedToken Listing.listedKind at hw ⊢
        cases hk : u.kind <;> simp_all [Token.ofText]

end LineBasic.Lexer
