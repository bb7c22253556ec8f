import Mathlib
import LineBasic.Parser.Statements
import LineBasic.Program.Renumber
import LineBasic.Proofs.ParserRuns
import LineBasic.Proofs.Skeleton

/-!
# Two readings of a line

The parser reads two lists of tokens that say the same, and the second reading follows the first.

* `Change`: in what the second list may differ: the numbers of lines, the text of remarks, and the
  columns.
* `Change.Aligned`: the two lists agree token by token. The numbers behind GOTO and its like are
  references, which the second list has changed; which numbers these are depends on the tokens
  before them.
* `Change.Follows`: if the first parser gives a result, so does the second, and the results, and the
  tokens that are left, are related. If the change is strict, the second parser also fails when the
  first does, with an error of the same kind at a column that belongs to the first one.
* `Change.Reads`: the same from and to places where no reference may stand, as in every expression.
* `Change.follows_lineNumber`: a line number is read as the new number where a reference may stand,
  else as it is.
-/

namespace LineBasic

open LineBasic.Parser
open LineBasic.Program (RefState)

/-- In what a second reading may differ from the first. -/
structure Change where
  /-- the new numbers of lines -/
  line : Nat → Nat
  /-- what counts of a remark -/
  remark : String → String
  /-- the second reading fails when the first does -/
  strict : Prop
  /-- the columns that belong together -/
  column : Nat → Nat → Prop

namespace Change

/-- Tokens that say the same and are no references. -/
inductive Same (c : Change) : TokenKind → TokenKind → Prop where
  | refl (kind : TokenKind) : c.Same kind kind
  | question : c.Same .question (.keyword .PRINT)
  | dataText {s s' : String} (items : dataItems s = dataItems s') : c.Same (.dataText s)
      (.dataText s')
  | remark {s s' : String} (text : c.remark s = c.remark s') : c.Same (.remark s) (.remark s')

/-- Numbers of which the second is read as the new number of the line that the first is read as. -/
structure Follow (c : Change) (v w : Value) : Prop where
  some : ∀ n, lineNumber? v = some n → lineNumber? w = some (c.line n)
  none : c.strict → lineNumber? v = none → lineNumber? w = none

/-- Tokens that say the same in a state: a reference is followed, any other token stays. -/
def Means (c : Change) (s : RefState) (t u : Token) : Prop :=
  match s.target? t with
  | some _ => ∃ v w, t.kind = .number v ∧ u.kind = .number w ∧ c.Follow v w
  | none => c.Same t.kind u.kind

/-- Tokens that say the same in a state, and whose columns belong together. -/
structure Pair (c : Change) (s : RefState) (t u : Token) : Prop where
  means : c.Means s t u
  column : c.column t.column u.column

/-- Errors of one kind at columns that belong together. -/
inductive SameError (c : Change) : Error → Error → Prop where
  | atColumn (kind : ErrorKind) {i j : Nat} (column : c.column i j) : c.SameError (.atColumn kind i)
      (.atColumn kind j)

theorem SameError.kind_eq {c : Change} {e e' : Error} (h : c.SameError e e') :
    e'.kind = e.kind := by
  cases h
  rfl

end Change

/-- The state after a reserved word. -/
def Program.RefState.ofKeyword : Keyword → RefState
  | .GOTO | .GOSUB => list
  | .THEN | .ELSE | .RESTORE | .RUN => one
  | _ => none

/-- The state after a token. -/
def Program.RefState.after (s : RefState) (t : Token) : RefState :=
  match s.target? t with
  | some _ => s.afterRef
  | Option.none => s.next t

namespace Change

/-- Lists that agree token by token, from a state on. -/
inductive Aligned (c : Change) : RefState → List Token → List Token → Prop where
  | nil {s : RefState} : c.Aligned s [] []
  | cons {s : RefState} {t u : Token} {ts us : List Token} (pair : c.Pair s t u)
      (rest : c.Aligned (s.after t) ts us) :
      c.Aligned s (t :: ts) (u :: us)

/-- Lists that agree from some state on. -/
def Loose (c : Change) (ts us : List Token) : Prop := ∃ s, c.Aligned s ts us

/-- The second parser follows the first. -/
def Follows (c : Change) {α β : Type} (P : List Token → List Token → Prop) (p : Parser α)
    (q : Parser β) (Q : α → β → List Token → List Token → Prop) : Prop :=
  ∀ (n m : Nat) (ts us : List Token), c.column n m → P ts us →
    match p n ts with
    | .ok (a, ts') => ∃ b us', q m us = .ok (b, us') ∧ Q a b ts' us' ∧ ts' <:+ ts
    | .error e => c.strict → ∃ e', q m us = .error e' ∧ c.SameError e e'

/-- These lists of tokens and no others. -/
def Exactly (ts us ts' us' : List Token) : Prop := ts' = ts ∧ us' = us

theorem Exactly.loose {c : Change} {ts us ts' us' : List Token} (h : Exactly ts us ts' us')
    (hloose : c.Loose ts us) :
    c.Loose ts' us' := by
  obtain ⟨rfl, rfl⟩ := h
  exact hloose

variable {c : Change} {α β γ δ : Type} {P P' : List Token → List Token → Prop} {p : Parser α}
  {q : Parser β} {Q Q' : α → β → List Token → List Token → Prop}

/-! ## Rules -/

namespace Follows

theorem weaken (h : c.Follows P p q Q) (hP : ∀ ts us, P' ts us → P ts us)
    (hQ : ∀ a b ts us, Q a b ts us → Q' a b ts us) : c.Follows P' p q Q' := by
  intro n m ts us hcolumn hp
  have := h n m ts us hcolumn (hP ts us hp)
  split at this
  · obtain ⟨b, us', hq, hpost, hsuffix⟩ := this
    exact ⟨b, us', hq, hQ _ _ _ _ hpost, hsuffix⟩
  · exact this

theorem pure {a : α} {b : β} (h : ∀ ts us, P ts us → Q a b ts us) :
    c.Follows P (pure a) (pure b) Q :=
  fun _ _ ts us _ hp => ⟨b, us, rfl, h ts us hp, List.suffix_refl ts⟩

theorem bind {f : α → Parser γ} {g : β → Parser δ} {R : γ → δ → List Token → List Token → Prop}
    (h : c.Follows P p q Q) (hf : ∀ a b, c.Follows (Q a b) (f a) (g b) R) :
    c.Follows P (p >>= f) (q >>= g) R := by
  intro n m ts us hcolumn hp
  have hfirst := h n m ts us hcolumn hp
  cases hpn : p n ts with
  | error e =>
    rw [hpn] at hfirst
    rw [run_bind_of_error hpn]
    intro hs
    obtain ⟨e', hq, hsame⟩ := hfirst hs
    exact ⟨e', run_bind_of_error hq, hsame⟩
  | ok r =>
    obtain ⟨a, ts'⟩ := r
    rw [hpn] at hfirst
    obtain ⟨b, us', hq, hpost, hsuffix⟩ := hfirst
    rw [run_bind_of_ok hpn, run_bind_of_ok hq]
    have hsecond := hf a b n m ts' us' hcolumn hpost
    split
    · rename_i r hr
      rw [hr] at hsecond
      obtain ⟨d, us'', hg, hR, hs⟩ := hsecond
      exact ⟨d, us'', hg, hR, hs.trans hsuffix⟩
    · rename_i e he
      rw [he] at hsecond
      exact hsecond

theorem map {f : α → γ} {g : β → δ} {R : γ → δ → List Token → List Token → Prop}
    (h : c.Follows P p q Q) (hf : ∀ a b ts us, Q a b ts us → R (f a) (g b) ts us) :
    c.Follows P (f <$> p) (g <$> q) R := by
  have : c.Follows P (p >>= fun a => Pure.pure (f a)) (q >>= fun b => Pure.pure (g b)) R :=
    bind h fun a b => pure fun ts us => hf a b ts us
  simpa only [bind_pure_comp] using this

/-- The lists are known. -/
theorem lists (h : ∀ ts us, P ts us → c.Follows (Exactly ts us) p q Q) : c.Follows P p q Q :=
  fun n m ts us hcolumn hp => h ts us hp n m ts us hcolumn ⟨rfl, rfl⟩

theorem exactly {ts us : List Token} (h : c.Follows P p q Q) (hp : P ts us) :
    c.Follows (Exactly ts us) p q Q :=
  h.weaken (fun _ _ ⟨hts, hus⟩ => hts ▸ hus ▸ hp) fun _ _ _ _ => id

/-- Both parsers run as two others do on what is left. -/
theorem run {p' : Parser α} {q' : Parser β} {ts us ts' us' : List Token}
    (hp : ∀ n, p n ts = p' n ts') (hq : ∀ m, q m us = q' m us') (hsuffix : ts' <:+ ts)
    (h : c.Follows (Exactly ts' us') p' q' Q) :
    c.Follows (Exactly ts us) p q Q := by
  rintro n m _ _ hcolumn ⟨rfl, rfl⟩
  rw [hp, hq]
  have hrun := h n m ts' us' hcolumn ⟨rfl, rfl⟩
  cases hn : p' n ts' with
  | error e =>
    rw [hn] at hrun
    exact hrun
  | ok r =>
    rw [hn] at hrun
    obtain ⟨b, us'', hm, hpost, hs⟩ := hrun
    exact ⟨b, us'', hm, hpost, hs.trans hsuffix⟩

theorem get {f : List Token → Parser α} {g : List Token → Parser β}
    (h : ∀ ts us, P ts us → c.Follows (Exactly ts us) (f ts) (g us) Q) :
    c.Follows P (get >>= f) (get >>= g) Q :=
  fun n m ts us hcolumn hp => h ts us hp n m ts us hcolumn ⟨rfl, rfl⟩

theorem peek {f : Option Token → Parser α} {g : Option Token → Parser β}
    (h : ∀ ts us, P ts us → c.Follows (Exactly ts us) (f ts.head?) (g us.head?) Q) :
    c.Follows P (peek? >>= f) (peek? >>= g) Q :=
  fun n m ts us hcolumn hp => h ts us hp n m ts us hcolumn ⟨rfl, rfl⟩

theorem set {t u : Token} {ts us : List Token} :
    c.Follows (Exactly (t :: ts) (u :: us)) (set ts) (set us) fun _ _ => Exactly ts us :=
  fun _ _ _ _ _ ⟨hts, _⟩ => ⟨(), us, rfl, ⟨rfl, rfl⟩, hts ▸ List.suffix_cons t ts⟩

theorem tail {t u : Token} {ts us : List Token} :
    c.Follows (Exactly (t :: ts) (u :: us)) (modify List.tail) (modify List.tail) fun _ _ =>
      Exactly ts us := by
  rintro n m _ _ - ⟨rfl, rfl⟩
  exact ⟨(), us, rfl, ⟨rfl, rfl⟩, List.suffix_cons t ts⟩

/-- The columns at which two lists that agree go on belong together. -/
theorem column (hP : ∀ ts us, P ts us → c.Loose ts us) :
    c.Follows P Parser.column Parser.column fun i j ts us => c.column i j ∧ P ts us := by
  intro n m ts us hcolumn hp
  obtain ⟨s, haligned⟩ := hP ts us hp
  cases haligned with
  | nil => exact ⟨m, [], rfl, ⟨hcolumn, hp⟩, List.suffix_refl _⟩
  | @cons _ t u ts us pair rest =>
    exact ⟨u.column, u :: us, rfl, ⟨pair.column, hp⟩, List.suffix_refl _⟩

/-- Both parsers fail at columns that belong together. -/
theorem failed (kind : ErrorKind) {i j : Nat} (h : c.column i j) : c.Follows P
    (throw (.atColumn kind i) : Parser α) (throw (.atColumn kind j) : Parser β) Q :=
  fun _ _ _ _ _ _ _ => ⟨_, rfl, .atColumn kind h⟩

theorem refuseAt {i j : Nat} (h : c.column i j) :
    c.Follows P (Parser.refuseAt i : Parser α) (Parser.refuseAt j : Parser β) Q :=
  failed .syntaxError h

theorem refuse (hP : ∀ ts us, P ts us → c.Loose ts us) :
    c.Follows P (Parser.refuse : Parser α) (Parser.refuse : Parser β) Q :=
  bind (column hP) fun _ _ => lists fun _ _ h => refuseAt h.1

theorem tooDeep (hP : ∀ ts us, P ts us → c.Loose ts us) :
    c.Follows P (Parser.tooDeep : Parser α) (Parser.tooDeep : Parser β) Q :=
  bind (column hP) fun _ _ => lists fun _ _ h => failed .outOfMemory h.1

/-- Both parsers refuse what they are given. -/
theorem refused {ts us : List Token} {f : Nat → Nat} {g : Nat → Nat}
    (hcolumns : ∀ n m, c.column n m → c.column (f n) (g m))
    (hp : ∀ n, p n ts = .error (.atColumn .syntaxError (f n)))
    (hq : ∀ m, q m us = .error (.atColumn .syntaxError (g m))) :
    c.Follows (Exactly ts us) p q Q := by
  rintro n m _ _ hcolumn ⟨rfl, rfl⟩
  rw [hp n]
  exact fun _ => ⟨_, hq m, .atColumn _ (hcolumns n m hcolumn)⟩

end Follows

/-! ## Tests of tokens -/

theorem Aligned.length_eq {s : RefState} {ts us : List Token} (h : c.Aligned s ts us) :
    ts.length = us.length := by
  induction h with
  | nil => rfl
  | cons pair rest ih => simp [ih]

/-- A test of the first token: both readings take it, or neither does. -/
theorem follows_accept {R : α → α → Prop} {f : Token → Option α} {s : RefState}
    (hf : ∀ t u, c.Pair s t u → Option.Rel R (f t) (f u)) :
    c.Follows (c.Aligned s) (accept? f) (accept? f) fun a b ts us =>
      Option.Rel R a b ∧ (a = none → c.Aligned s ts us ∧ ∀ t ∈ ts.head?, f t = none) ∧
        ∀ x, a = some x → ∃ t, f t = some x ∧ c.Aligned (s.after t) ts us := by
  intro n m ts us _ h
  cases h with
  | nil => exact ⟨none, [], rfl, ⟨.none, fun _ => ⟨.nil, by simp⟩, by simp⟩, List.suffix_refl _⟩
  | @cons _ t u ts us pair rest =>
    have hrel := hf t u pair
    rw [run_accept_cons, run_accept_cons]
    cases ht : f t with
    | none =>
      rw [ht] at hrel
      generalize f u = y at hrel ⊢
      cases hrel
      exact ⟨none, u :: us, rfl, ⟨.none, fun _ => ⟨.cons pair rest, by simpa using ht⟩, by simp⟩,
        List.suffix_refl _⟩
    | some a =>
      rw [ht] at hrel
      generalize f u = y at hrel ⊢
      cases hrel with
      | @some _ b hab =>
        exact ⟨some b, us, rfl, ⟨.some hab, by simp, fun x hx => ⟨t, ht.trans hx, rest⟩⟩,
          List.suffix_cons t ts⟩

theorem follows_expect {R : α → α → Prop} {f : Token → Option α} {s : RefState}
    (hf : ∀ t u, c.Pair s t u → Option.Rel R (f t) (f u)) :
    c.Follows (c.Aligned s) (expect f) (expect f) fun a b ts us =>
      R a b ∧ ∃ t, f t = some a ∧ c.Aligned (s.after t) ts us := by
  refine (follows_accept hf).bind fun a b => ?_
  cases a with
  | none =>
    cases b with
    | none => exact .refuse fun ts us h => ⟨s, (h.2.1 rfl).1⟩
    | some b => exact fun _ _ _ _ _ h => nomatch h.1
  | some a =>
    cases b with
    | none => exact fun _ _ _ _ _ h => nomatch h.1
    | some b => exact .pure fun ts us ⟨hrel, _, hsome⟩ => ⟨by cases hrel; assumption, hsome a rfl⟩

theorem follows_accepts {f : Token → Option Token} {s : RefState}
    (hf : ∀ t u, c.Pair s t u → Option.Rel (fun _ _ => True) (f t) (f u)) :
    c.Follows (c.Aligned s) (accepts f) (accepts f) fun a b ts us =>
      a = b ∧ (a = false → c.Aligned s ts us ∧ ∀ t ∈ ts.head?, f t = none) ∧
        (a = true → ∃ t x, f t = some x ∧ c.Aligned (s.after t) ts us) := by
  refine (follows_accept hf).bind fun a b => ?_
  cases a with
  | none =>
    cases b with
    | none => exact .pure fun ts us h => ⟨rfl, fun _ => h.2.1 rfl, by simp⟩
    | some b => exact fun _ _ _ _ _ h => nomatch h.1
  | some a =>
    cases b with
    | none => exact fun _ _ _ _ _ h => nomatch h.1
    | some b =>
      refine .pure fun ts us h => ⟨rfl, by simp, fun _ => ?_⟩
      obtain ⟨t, ht, hrest⟩ := h.2.2 a rfl
      exact ⟨t, a, ht, hrest⟩

/-! ## States -/

variable {s : RefState} {t u : Token} {ts us : List Token}

theorem next_of_keyword? {k : Keyword} (h : t.keyword? = some k) :
    s.next t = RefState.ofKeyword k := by
  unfold Token.keyword? at h
  split at h
  · rename_i k' kind
    obtain rfl := Option.some.inj h
    unfold RefState.next
    rw [kind]
    cases k' <;> rfl
  · rename_i kind
    obtain rfl := Option.some.inj h
    simp [RefState.next, kind, RefState.ofKeyword]
  · rename_i kind
    obtain rfl := Option.some.inj h
    simp [RefState.next, kind, RefState.ofKeyword]
  · exact absurd h (by simp)

theorem target?_of_ne_number (h : ∀ v, t.kind ≠ .number v) : s.target? t = none := by
  unfold RefState.target?
  split
  · split
    · exact absurd (by assumption) (h _)
    · exact absurd (by assumption) (h _)
    · rfl
  · rfl

theorem number_of_target? {n : Nat} (h : s.target? t = some n) : ∃ v, t.kind = .number v := by
  by_contra hne
  rw [target?_of_ne_number fun v hv => hne ⟨v, hv⟩] at h
  cases h

theorem after_eq_next (h : ∀ v, t.kind ≠ .number v) : s.after t = s.next t := by
  unfold RefState.after
  rw [target?_of_ne_number h]

theorem ne_number_of_keyword? {k : Keyword} (h : t.keyword? = some k) (v : Value) :
    t.kind ≠ .number v := by
  intro hv
  simp [Token.keyword?, hv] at h

theorem after_of_keyword? {k : Keyword} (h : t.keyword? = some k) :
    s.after t = RefState.ofKeyword k := by
  rw [after_eq_next (ne_number_of_keyword? h), next_of_keyword? h]

/-- Tokens that say the same in a state say the same, or both are numbers. -/
theorem Pair.same_or_number (h : c.Pair s t u) :
    c.Same t.kind u.kind ∨ ∃ v w, t.kind = .number v ∧ u.kind = .number w := by
  have hmeans := h.means
  unfold Means at hmeans
  split at hmeans
  · obtain ⟨v, w, ht, hu, -⟩ := hmeans
    exact Or.inr ⟨v, w, ht, hu⟩
  · exact Or.inl hmeans

/-- If the first token is no number, and no comma in a list of references, the state before it does
not matter. -/
theorem Aligned.calm (h : c.Aligned s ts us)
    (hhead : ∀ t ∈ ts.head?, (∀ v, t.kind ≠ .number v) ∧ (s = .more → t.kind ≠ .comma)) :
    c.Aligned .none ts us := by
  cases h with
  | nil => exact .nil
  | @cons _ t u ts us pair rest =>
    obtain ⟨hnumber, hcomma⟩ := hhead t rfl
    have hsame : c.Same t.kind u.kind := by
      rcases pair.same_or_number with hsame | ⟨v, w, ht, -⟩
      · exact hsame
      · exact absurd ht (hnumber v)
    have hnext : s.after t = RefState.none.after t := by
      rw [after_eq_next hnumber, after_eq_next hnumber]
      unfold RefState.next
      cases hk : t.kind with
      | comma => exact if_neg fun hs => hcomma hs hk
      | keyword k => cases k <;> rfl
      | _ => rfl
    exact .cons ⟨hsame, pair.column⟩ (hnext ▸ rest)

/-- If lines keep their numbers, tokens that say the same do so in every state. -/
theorem Same.means (hline : c.line = id) (h : c.Same t.kind u.kind) (s : RefState) :
    c.Means s t u := by
  unfold Means
  split
  · rename_i n htarget
    obtain ⟨v, ht⟩ := number_of_target? htarget
    have hu : u.kind = .number v := by
      rw [ht] at h
      generalize u.kind = k at h ⊢
      cases h
      rfl
    refine ⟨v, v, ht, hu, fun n hn => ?_, fun _ => id⟩
    rw [hline]
    exact hn
  · exact h

theorem aligned_of_same (hline : c.line = id)
    (h : List.Forall₂ (fun t u => c.Same t.kind u.kind ∧ c.column t.column u.column) ts us)
    (s : RefState) :
    c.Aligned s ts us := by
  induction h generalizing s with
  | nil => exact .nil
  | cons hsame _ ih => exact .cons ⟨hsame.1.means hline s, hsame.2⟩ (ih _)

/-! ## Reading where no reference may stand -/

/-- Both parsers read alike where no reference may stand, and end where none may. -/
def Reads (c : Change) (R : α → β → Prop) (p : Parser α) (q : Parser β) : Prop :=
  c.Follows (c.Aligned .none) p q fun a b ts us => R a b ∧ c.Aligned .none ts us

namespace Reads

variable {R : α → β → Prop} {S : γ → δ → Prop}

theorem pure {a : α} {b : β} (h : R a b) : c.Reads R (pure a) (pure b) :=
  Follows.pure fun _ _ hp => ⟨h, hp⟩

theorem bind {f : α → Parser γ} {g : β → Parser δ} (h : c.Reads R p q)
    (hf : ∀ a b, R a b → c.Reads S (f a) (g b)) : c.Reads S (p >>= f) (q >>= g) :=
  Follows.bind h fun a b n m ts us hcolumn ⟨hab, hp⟩ => hf a b hab n m ts us hcolumn hp

theorem map {f : α → γ} {g : β → δ} (h : c.Reads R p q) (hf : ∀ a b, R a b → S (f a) (g b)) :
    c.Reads S (f <$> p) (g <$> q) :=
  Follows.map h fun a b _ _ ⟨hab, hp⟩ => ⟨hf a b hab, hp⟩

theorem refuseAt {i j : Nat} (h : c.column i j) :
    c.Reads R (Parser.refuseAt i : Parser α) (Parser.refuseAt j : Parser β) :=
  Follows.refuseAt h

theorem tooDeep : c.Reads R (Parser.tooDeep : Parser α) (Parser.tooDeep : Parser β) :=
  Follows.tooDeep fun _ _ h => ⟨_, h⟩

/-- The number of tokens that are left is the same. -/
theorem get {f : List Token → Parser α} {g : List Token → Parser β}
    (h : ∀ ts us, ts.length = us.length → c.Reads R (f ts) (g us)) :
    c.Reads R (get >>= f) (get >>= g) :=
  Follows.get fun ts us hp => Follows.exactly (h ts us hp.length_eq) hp

end Reads

/-- Tokens that are written in one way, and after which no reference may stand. -/
def isSteady : TokenKind → Bool
  | .question | .dataText _ | .remark _ => false
  | .keyword .PRINT => false
  | .keyword k => RefState.ofKeyword k = .none
  | _ => true

/-- The test takes both of two tokens that say the same, or neither, and what it makes of them is
related. After a token that it takes no reference may stand. -/
structure Agrees (c : Change) (R : α → α → Prop) (f : Token → Option α) : Prop where
  rel : ∀ t u, c.Same t.kind u.kind → c.column t.column u.column → Option.Rel R (f t) (f u)
  after : ∀ t a, f t = some a → RefState.none.after t = .none

/-- A test that takes steady tokens by their kind agrees. -/
theorem agrees_of_kind {R : α → α → Prop} {f : Token → Option α}
    (hsame : ∀ t u : Token, t.kind = u.kind → c.column t.column u.column → Option.Rel R (f t) (f u))
    (hother : ∀ t : Token, isSteady t.kind = false → f t = none) : c.Agrees R f where
  rel t u h hcolumn := by
    generalize ht : t.kind = k at h
    generalize hu : u.kind = k' at h
    cases h with
    | refl => exact hsame t u (ht.trans hu.symm) hcolumn
    | question | dataText items | remark text =>
      rw [hother t (by rw [ht]; rfl), hother u (by rw [hu]; rfl)]
      exact .none
  after t a h := by
    change RefState.none.next t = .none
    have hsteady : isSteady t.kind = true := by
      by_contra hnot
      simp [hother t (by simpa using hnot)] at h
    unfold RefState.next
    cases hk : t.kind with
    | comma => rfl
    | keyword k =>
      rw [hk] at hsteady
      cases k <;> first | rfl | exact absurd hsteady (by decide)
    | _ => rfl

namespace Agrees

variable {R : α → α → Prop} {f : Token → Option α}

theorem pair (h : c.Agrees R f) (hs : s = .none ∨ s = .more) (t u : Token) (hpair : c.Pair s t u) :
    Option.Rel R (f t) (f u) := by
  have hmeans := hpair.means
  rcases hs with rfl | rfl <;> exact h.rel t u hmeans hpair.column

theorem accept (h : c.Agrees R f) : c.Reads (Option.Rel R) (accept? f) (accept? f) := by
  refine (follows_accept (s := .none) (h.pair (.inl rfl))).weaken (fun _ _ => id)
    fun a b ts us ⟨hrel, hnone, hsome⟩ => ⟨hrel, ?_⟩
  cases a with
  | none => exact (hnone rfl).1
  | some a =>
    obtain ⟨t, ht, hrest⟩ := hsome a rfl
    rwa [h.after t a ht] at hrest

theorem expect (h : c.Agrees R f) : c.Reads R (expect f) (expect f) := by
  refine (follows_expect (s := .none) (h.pair (.inl rfl))).weaken (fun _ _ => id)
    fun a b ts us ⟨hrel, t, ht, hrest⟩ => ⟨hrel, ?_⟩
  rwa [h.after t a ht] at hrest

theorem discard (h : c.Agrees R f) :
    c.Reads (fun _ _ => True) (discard (Parser.expect f)) (discard (Parser.expect f)) :=
  h.expect.map fun _ _ _ => trivial

theorem accepts {f : Token → Option Token} (h : c.Agrees (fun _ _ => True) f) :
    c.Reads Eq (accepts f) (accepts f) := by
  refine (follows_accepts (s := .none) (h.pair (.inl rfl))).weaken (fun _ _ => id)
    fun a b ts us ⟨hrel, hfalse, htrue⟩ => ⟨hrel, ?_⟩
  cases a with
  | false => exact (hfalse rfl).1
  | true =>
    obtain ⟨t, x, ht, hrest⟩ := htrue rfl
    rwa [h.after t x ht] at hrest

end Agrees

theorem Same.keyword?_eq (h : c.Same t.kind u.kind) : t.keyword? = u.keyword? := by
  unfold Token.keyword?
  generalize t.kind = k at h
  generalize u.kind = k' at h
  cases h <;> rfl

theorem Pair.keyword?_eq (h : c.Pair s t u) : t.keyword? = u.keyword? := by
  rcases h.same_or_number with hsame | ⟨v, w, ht, hu⟩
  · exact hsame.keyword?_eq
  · simp [Token.keyword?, ht, hu]

theorem rel_isKeyword (k : Keyword) (h : t.keyword? = u.keyword?) :
    Option.Rel (fun _ _ => True) (isKeyword k t) (isKeyword k u) := by
  unfold isKeyword
  rw [h]
  split
  · exact .some trivial
  · exact .none

theorem keyword?_of_isKeyword {k : Keyword} {x : Token} (h : isKeyword k t = some x) :
    t.keyword? = some k := by
  unfold isKeyword at h
  split at h
  · assumption
  · cases h

theorem agrees_isKeyword {k : Keyword} (hk : RefState.ofKeyword k = .none) :
    c.Agrees (fun _ _ => True) (isKeyword k) where
  rel _ _ h _ := rel_isKeyword k h.keyword?_eq
  after t x h := by rw [after_of_keyword? (keyword?_of_isKeyword h), hk]

/-- A test for a property of steady tokens agrees. -/
theorem agrees_that {f : TokenKind → Bool} (h : ∀ k, isSteady k = false → f k = false) :
    c.Agrees (fun _ _ => True) (that f) := by
  refine agrees_of_kind (fun t u ht _ => ?_) fun t ht => ?_
  · unfold that
    rw [ht]
    split <;> simp
  · simp [that, h t.kind ht]

theorem agrees_isOpening : c.Agrees (fun _ _ => True) isOpening :=
  agrees_that fun k h => by cases k <;> first | rfl | cases h

theorem agrees_isClosing : c.Agrees (fun _ _ => True) isClosing :=
  agrees_that fun k h => by cases k <;> first | rfl | cases h

theorem agrees_isComma : c.Agrees (fun _ _ => True) isComma :=
  agrees_that fun k h => by cases k <;> first | rfl | cases h

theorem agrees_isEquals : c.Agrees (fun _ _ => True) isEquals :=
  agrees_that fun k h => by cases k <;> first | rfl | cases h

theorem agrees_isMinus : c.Agrees (fun _ _ => True) isMinus := by
  refine agrees_that fun k h => ?_
  split
  · cases h
  · rfl

theorem agrees_name : c.Agrees (fun a b => a.1 = b.1) name? := by
  refine agrees_of_kind (fun t u h _ => ?_) fun t h => ?_
  · unfold name?
    rw [h]
    split <;> simp
  · unfold name?
    split <;> simp_all [isSteady]

theorem agrees_numericName : c.Agrees Eq numericName? := by
  refine agrees_of_kind (fun t u h _ => ?_) fun t h => ?_
  · unfold numericName?
    rw [h]
    split <;> simp
  · unfold numericName?
    split <;> simp_all [isSteady]

theorem agrees_operatorAt (level : Nat) : c.Agrees (fun a b => a.1 = b.1) (operatorAt? level) := by
  refine agrees_of_kind (fun t u h _ => ?_) fun t h => ?_
  · have hop : binaryOp? t = binaryOp? u := by
      unfold binaryOp?
      rw [h]
    unfold operatorAt?
    rw [hop]
    split
    · split <;> simp
    · exact .none
  · have hop : binaryOp? t = none := by
      unfold binaryOp?
      split <;> simp_all [isSteady, RefState.ofKeyword]
    unfold operatorAt?
    rw [hop]

theorem agrees_unaryOp : c.Agrees (fun a b => a.1 = b.1) unaryOp? := by
  refine agrees_of_kind (fun t u h _ => ?_) fun t h => ?_
  · unfold unaryOp?
    rw [h]
    split <;> simp
  · unfold unaryOp?
    split <;> simp_all [isSteady, RefState.ofKeyword]

theorem agrees_powerSign : c.Agrees (fun _ _ => True) powerSign? := by
  refine agrees_of_kind (fun t u h _ => ?_) fun t h => ?_
  · unfold powerSign?
    rw [h]
    split <;> simp
  · unfold powerSign?
    split <;> simp_all [isSteady]

theorem agrees_stringText : c.Agrees Eq stringText? := by
  refine agrees_of_kind (fun t u h _ => ?_) fun t h => ?_
  · unfold stringText?
    rw [h]
    split <;> simp
  · unfold stringText?
    split <;> simp_all [isSteady]

theorem agrees_promptMark : c.Agrees Eq promptMark? := by
  refine agrees_of_kind (fun t u h _ => ?_) fun t h => ?_
  · unfold promptMark?
    rw [h]
    split <;> simp
  · unfold promptMark?
    split <;> simp_all [isSteady]

/-! ## Line numbers -/

/-- What becomes of a line number that is read in a state. -/
def lineAt (c : Change) (s : RefState) (n : Nat) : Nat :=
  if s = .list ∨ s = .one then c.line n else n

theorem run_lineNumber {v : Value} (h : t.kind = .number v) (n : Nat) (ts : List Token) :
    lineNumber n (t :: ts) =
      match lineNumber? v with
      | some k => .ok (k, ts)
      | none => .error (.atColumn .syntaxError t.column) := by
  obtain ⟨kind, column, stop, text⟩ := t
  obtain rfl : kind = .number v := h
  change (match lineNumber? v with
    | some k => (return k : Parser Nat)
    | none => (refuseAt column : Parser Nat)) n ts = _
  cases lineNumber? v <;> rfl

theorem run_lineNumber_refuse (h : ∀ v, t.kind ≠ .number v) (n : Nat) (ts : List Token) :
    lineNumber n (t :: ts) = .error (.atColumn .syntaxError t.column) := by
  obtain ⟨kind, column, stop, text⟩ := t
  cases kind with
  | number v => exact absurd rfl (h v)
  | _ => rfl

/-- A number in a pair is followed by a number that names the line it has become. -/
theorem Pair.number (h : c.Pair s t u) {v : Value} (ht : t.kind = .number v) :
    ∃ w, u.kind = .number w ∧ (∀ n, lineNumber? v = some n → lineNumber? w = some (c.lineAt s n)) ∧
      (c.strict → lineNumber? v = none → lineNumber? w = none) := by
  replace h := h.means
  unfold Means at h
  split at h
  · rename_i n htarget
    obtain ⟨v', w, ht', hu, hfollow⟩ := h
    obtain rfl : v = v' := by
      rw [ht'] at ht
      cases ht
      rfl
    have hs : s = .list ∨ s = .one := by
      unfold RefState.target? at htarget
      split at htarget
      · simp_all
      · cases htarget
    exact ⟨w, hu, fun n hn => by rw [lineAt, if_pos hs]; exact hfollow.some n hn, hfollow.none⟩
  · rename_i htarget
    have hu : u.kind = .number v := by
      rw [ht] at h
      generalize u.kind = k at h ⊢
      cases h
      rfl
    refine ⟨v, hu, fun n hn => ?_, fun _ => id⟩
    rw [lineAt, if_neg ?_]
    · exact hn
    · intro hs
      have hnone : lineNumber? v = none := by
        unfold RefState.target? at htarget
        rw [if_pos (by simpa using hs), ht] at htarget
        cases v with
        | text x => rfl
        | single x | double x =>
          have hparts : Floating.parts? x = none := by simpa using htarget
          simp [lineNumber?, hparts]
      rw [hnone] at hn
      cases hn

/-- After a line number the state is the one after a reference. -/
theorem after_of_lineNumber? {v : Value} {n : Nat} (ht : t.kind = .number v)
    (hn : lineNumber? v = some n) :
    s.after t = s.afterRef := by
  have htarget : s = .list ∨ s = .one → ∃ k, s.target? t = some k := by
    intro hs
    unfold RefState.target?
    rw [if_pos (by simpa using hs), ht]
    cases v with
    | text x => cases hn
    | single x | double x =>
      unfold lineNumber? at hn
      simp only at hn ⊢
      split at hn
      · rename_i p hp
        rw [hp]
        exact ⟨p.whole, rfl⟩
      · cases hn
  unfold RefState.after
  cases s with
  | list | one =>
    obtain ⟨k, hk⟩ := htarget (by simp)
    rw [hk]
  | none | more =>
    change RefState.next _ t = _
    simp [RefState.next, ht, RefState.afterRef]

/-- **A line number is followed**: it becomes the new number where a reference may stand, and stays
elsewhere. -/
theorem follows_lineNumber (s : RefState) :
    c.Follows (c.Aligned s) lineNumber lineNumber fun a b ts us =>
      b = c.lineAt s a ∧ c.Aligned s.afterRef ts us := by
  intro n m ts us hcolumn h
  cases h with
  | nil => exact fun _ => ⟨_, rfl, .atColumn _ hcolumn⟩
  | @cons _ t u ts us pair rest =>
    by_cases hnumber : ∃ v, t.kind = .number v
    · obtain ⟨v, ht⟩ := hnumber
      obtain ⟨w, hu, hsome, hnone⟩ := pair.number ht
      rw [run_lineNumber ht, run_lineNumber hu]
      cases hv : lineNumber? v with
      | none =>
        intro hs
        rw [hnone hs hv]
        exact ⟨_, rfl, .atColumn _ pair.column⟩
      | some k =>
        rw [hsome k hv]
        rw [after_of_lineNumber? ht hv] at rest
        exact ⟨c.lineAt s k, us, rfl, ⟨rfl, rest⟩, List.suffix_cons t ts⟩
    · have ht : ∀ v, t.kind ≠ .number v := fun v hv => hnumber ⟨v, hv⟩
      have hu : ∀ w, u.kind ≠ .number w := by
        intro w hw
        rcases pair.same_or_number with hsame | ⟨v, -, hv, -⟩
        · rw [hw] at hsame
          generalize t.kind = k at hsame ht
          cases hsame
          exact ht w rfl
        · exact ht v hv
      rw [run_lineNumber_refuse ht, run_lineNumber_refuse hu]
      exact fun _ => ⟨_, rfl, .atColumn _ pair.column⟩

theorem reads_lineNumber : c.Reads Eq lineNumber lineNumber :=
  (follows_lineNumber .none).weaken (fun _ _ => id) fun _ _ _ _ ⟨h, hrest⟩ => ⟨h.symm, hrest⟩

theorem follows_lineRef (hs : s = .list ∨ s = .one) :
    c.Follows (c.Aligned s) lineRef lineRef fun a b ts us =>
      a.reform c.line = b.reform id ∧ c.Aligned s.afterRef ts us := by
  refine (Follows.column fun _ _ h => ⟨s, h⟩).bind fun _ _ => .lists fun ts us ⟨_, haligned⟩ =>
    .exactly ?_ haligned
  refine (follows_lineNumber s).bind fun a b => .pure fun ts us ⟨h, hrest⟩ => ⟨?_, hrest⟩
  simp [LineRef.reform, h, lineAt, hs]

end Change

end LineBasic
