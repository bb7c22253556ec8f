import Mathlib
import LineBasic.Parser.Cursor

/-!
# Running a parser

What parsers do to a list of tokens, forwards, when it is known what they meet, and backwards, when
it is known that they gave a result.

* `run_bind_of_ok`, `run_bind_eq_ok` and those beside them: one equation or inversion for each way
  to build a parser.
* `Comes`: what reading comes to, if a condition on the nesting holds and if it does not.
-/

namespace LineBasic.Parser

variable {α β : Type} {n : Nat} {t : Token} {ts mid rest : List Token}

/-! ## One after the other -/

theorem run_bind_of_ok {p : Parser α} {f : α → Parser β} {a : α} (h : p n ts = .ok (a, mid)) :
    (p >>= f) n ts = f a n mid := by
  change (p n ts >>= fun r => f r.1 n r.2) = _
  rw [h]
  rfl

theorem run_bind_of_error {p : Parser α} {f : α → Parser β} {e : Error} (h : p n ts = .error e) :
    (p >>= f) n ts = .error e := by
  change (p n ts >>= fun r => f r.1 n r.2) = _
  rw [h]
  rfl

theorem run_bind_eq_ok {p : Parser α} {f : α → Parser β} {b : β}
    (h : (p >>= f) n ts = .ok (b, rest)) :
    ∃ a us, p n ts = .ok (a, us) ∧ f a n us = .ok (b, rest) := by
  cases hp : p n ts with
  | error e =>
    rw [run_bind_of_error hp] at h
    cases h
  | ok r =>
    rw [run_bind_of_ok hp] at h
    exact ⟨r.1, r.2, rfl, h⟩

theorem run_pure_eq_ok {a b : α} (h : (pure a : Parser α) n ts = .ok (b, rest)) :
    b = a ∧ rest = ts := by
  obtain ⟨rfl, rfl⟩ := Prod.mk.inj (Except.ok.inj h)
  exact ⟨rfl, rfl⟩

theorem run_tooDeep {a : α} : (tooDeep : Parser α) n ts ≠ .ok (a, rest) := by
  intro h
  obtain ⟨_, _, -, h⟩ := run_bind_eq_ok h
  cases h

/-! ## The token at the front -/

theorem accept_cons (f : Token → Option α) (n : Nat) (t : Token) (ts : List Token) :
    accept? f n (t :: ts) = (match f t with
      | some a => (do set ts; return some a : Parser (Option α))
      | none => return none) n (t :: ts) := rfl

/-- A test of the first token takes it, or leaves it there. -/
theorem run_accept_cons (f : Token → Option α) (n : Nat) (t : Token) (ts : List Token) :
    accept? f n (t :: ts) = match f t with
      | some a => .ok (some a, ts)
      | none => .ok (none, t :: ts) := by
  rw [accept_cons]
  cases f t <;> rfl

theorem run_accept_of_some {f : Token → Option α} {a : α} (h : f t = some a) :
    accept? f n (t :: ts) = .ok (some a, ts) := by
  rw [run_accept_cons, h]

theorem run_accept_of_none {f : Token → Option α} (h : ∀ t ∈ ts.head?, f t = none) :
    accept? f n ts = .ok (none, ts) := by
  cases ts with
  | nil => rfl
  | cons t ts => rw [run_accept_cons, h t rfl]

theorem run_accept_eq_ok {f : Token → Option α} {r : Option α}
    (h : accept? f n ts = .ok (r, rest)) :
    (r = none ∧ rest = ts) ∨ ∃ t a, ts = t :: rest ∧ f t = some a ∧ r = some a := by
  cases ts with
  | nil =>
    obtain ⟨rfl, rfl⟩ := run_pure_eq_ok (n := n) h
    exact .inl ⟨rfl, rfl⟩
  | cons t ts =>
    rw [run_accept_cons] at h
    cases hf : f t with
    | none =>
      rw [hf] at h
      obtain ⟨rfl, rfl⟩ := Prod.mk.inj (Except.ok.inj h)
      exact .inl ⟨rfl, rfl⟩
    | some a =>
      rw [hf] at h
      obtain ⟨rfl, rfl⟩ := Prod.mk.inj (Except.ok.inj h)
      exact .inr ⟨t, a, rfl, hf, rfl⟩

theorem run_accepts_of_some {f : Token → Option Token} {u : Token} (h : f t = some u) :
    accepts f n (t :: ts) = .ok (true, ts) :=
  run_bind_of_ok (run_accept_of_some h)

theorem run_accepts_of_none {f : Token → Option Token} (h : ∀ t ∈ ts.head?, f t = none) :
    accepts f n ts = .ok (false, ts) :=
  run_bind_of_ok (run_accept_of_none h)

theorem run_expect_of_some {f : Token → Option α} {a : α} (h : f t = some a) :
    expect f n (t :: ts) = .ok (a, ts) :=
  run_bind_of_ok (run_accept_of_some h)

theorem run_expect_eq_ok {f : Token → Option α} {a : α} (h : expect f n ts = .ok (a, rest)) :
    ∃ t, ts = t :: rest ∧ f t = some a := by
  obtain ⟨r, us, haccept, h⟩ := run_bind_eq_ok h
  obtain ⟨rfl, -⟩ | ⟨t, a', rfl, hf, rfl⟩ := run_accept_eq_ok haccept
  · obtain ⟨i, us', -, h⟩ := run_bind_eq_ok h
    cases h
  · obtain ⟨rfl, rfl⟩ := run_pure_eq_ok h
    exact ⟨t, rfl, hf⟩

/-! ## Parentheses and commas -/

theorem isOpening_eq_some (h : t.kind = .opening) : isOpening t = some t := if_pos (by rw [h])

theorem isClosing_eq_some (h : t.kind = .closing) : isClosing t = some t := if_pos (by rw [h])

theorem isComma_eq_some (h : t.kind = .comma) : isComma t = some t := if_pos (by rw [h])

theorem that_eq_none {p : TokenKind → Bool} {k : TokenKind} (hp : ∀ k', p k' = true → k' = k)
    (h : t.kind ≠ k) :
    that p t = none :=
  if_neg fun hkind => h (hp t.kind hkind)

theorem isOpening_eq_none (h : t.kind ≠ .opening) : isOpening t = none :=
  that_eq_none (fun k hk => by cases k <;> first | rfl | cases hk) h

theorem isClosing_eq_none (h : t.kind ≠ .closing) : isClosing t = none :=
  that_eq_none (fun k hk => by cases k <;> first | rfl | cases hk) h

theorem isComma_eq_none (h : t.kind ≠ .comma) : isComma t = none :=
  that_eq_none (fun k hk => by cases k <;> first | rfl | cases hk) h

theorem run_discard_closing (h : t.kind = .closing) :
    (discard (expect isClosing) : Parser PUnit) n (t :: ts) = .ok (⟨⟩, ts) := by
  change ((fun _ => PUnit.unit) <$> expect isClosing : Parser PUnit) n (t :: ts) = _
  rw [← bind_pure_comp]
  exact run_bind_of_ok (run_expect_of_some (isClosing_eq_some h))

/-! ## What reading comes to -/

/-- If the condition holds, something with a property is read and these tokens are left; if not, the
nesting is too deep. -/
structure Comes (fits : Prop) (R : α → Prop) (rest : List Token)
    (result : Except Error (α × List Token)) : Prop where
  reads : fits → ∃ a, result = .ok (a, rest) ∧ R a
  refuses : ¬fits → ∃ i, result = .error (.atColumn .outOfMemory i)

namespace Comes

variable {fits fits' : Prop} {R : α → Prop} {S : β → Prop} {result : Except Error (α × List Token)}

theorem ok {a : α} (hfits : fits) (h : R a) : Comes fits R rest (.ok (a, rest)) :=
  ⟨fun _ => ⟨a, rfl, h⟩, fun hnot => absurd hfits hnot⟩

theorem tooDeep (hnot : ¬fits) : Comes fits R rest ((tooDeep : Parser α) n ts) := by
  refine ⟨fun hfits => absurd hfits hnot, fun _ => ?_⟩
  cases ts with
  | nil => exact ⟨n, rfl⟩
  | cons t ts => exact ⟨t.column, rfl⟩

theorem congr (h : Comes fits R rest result) (hiff : fits ↔ fits') : Comes fits' R rest result :=
  ⟨fun hfits => h.reads (hiff.mpr hfits), fun hnot => h.refuses fun hfits => hnot (hiff.mp hfits)⟩

/-- One parser after the other: both have to fit. -/
theorem bind {p : Parser α} {f : α → Parser β} (h : Comes fits R mid (p n ts))
    (hf : ∀ a, R a → Comes fits' S rest (f a n mid)) :
    Comes (fits ∧ fits') S rest ((p >>= f) n ts) := by
  by_cases hfits : fits
  · obtain ⟨a, hp, ha⟩ := h.reads hfits
    rw [run_bind_of_ok hp]
    exact (hf a ha).congr (by simp [hfits])
  · obtain ⟨i, hp⟩ := h.refuses hfits
    rw [run_bind_of_error hp]
    exact ⟨fun h => absurd h.1 hfits, fun _ => ⟨i, rfl⟩⟩

/-- What follows the parser always fits. -/
theorem finish {p : Parser α} {f : α → Parser β} (h : Comes fits R mid (p n ts))
    (hf : ∀ a, R a → ∃ b, f a n mid = .ok (b, rest) ∧ S b) :
    Comes fits S rest ((p >>= f) n ts) := by
  refine (h.bind fun a ha => ?_).congr (iff_of_eq (and_true fits))
  obtain ⟨b, hrun, hb⟩ := hf a ha
  rw [hrun]
  exact .ok trivial hb

/-- What comes before the parser always fits. -/
theorem after {p : Parser α} {f : α → Parser β} {a : α} (h : p n ts = .ok (a, mid))
    (hf : Comes fits S rest (f a n mid)) : Comes fits S rest ((p >>= f) n ts) := by
  rw [run_bind_of_ok h]
  exact hf

end Comes

end LineBasic.Parser
