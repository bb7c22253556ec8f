import Mathlib
import LineBasic.Parser.Statements
import LineBasic.Proofs.ParserRuns

/-!
# What reading comes to

A parser gives a result and leaves an end of the tokens, or it refuses them, or too many calls would
have to be open at once. This module has the rules by which that is shown for one parser after the
other; the parsers themselves follow in the next modules.

* `Outcome`: what came of a reading, and of the same reading with room for one more open call. Both
  gave the same, unless the first had no room.
* `Settles`: what comes of a parser that stays inside one statement, whatever tokens it is given.
* `Steady`: a loop that counts its rounds is not ended by the count.
-/

namespace LineBasic.Parser

variable {α β : Type} {columns : Set Nat} {room room' : Int} {n : Nat} {t : Token}
  {ts taken rest : List Token}

/-! ## Outcomes -/

/-- What came of two readings of the same tokens, of which the second had room for one more open
call. A result is what `Q` says of it, of the tokens that were taken and of those that were left. An
error is at one of the columns. The room was too short only if it was less than nine calls for each
token; what the second reading gave is then open. -/
inductive Outcome (columns : Set Nat) (room : Int) (Q : List Token → α → List Token → Prop)
    (ts : List Token) :
    Except Error (α × List Token) → Except Error (α × List Token) → Prop where
  | ok (taken : List Token) {rest : List Token} {a : α} (split : ts = taken ++ rest)
      (holds : Q taken a rest) :
      Outcome columns room Q ts (.ok (a, rest)) (.ok (a, rest))
  | refused {i : Nat} (column : i ∈ columns) :
      Outcome columns room Q ts (.error (.atColumn .syntaxError i))
      (.error (.atColumn .syntaxError i))
  | tooDeep {i : Nat} {r : Except Error (α × List Token)} (column : i ∈ columns)
      (short : room < 9 * ts.length) :
      Outcome columns room Q ts (.error (.atColumn .outOfMemory i)) r

/-- The columns of the tokens and the one after the line are among these. -/
structure Known (columns : Set Nat) (n : Nat) (ts : List Token) : Prop where
  ending : n ∈ columns
  token : ∀ t ∈ ts, t.column ∈ columns

theorem Known.of_append (h : Known columns n (taken ++ rest)) : Known columns n rest :=
  ⟨h.ending, fun t ht => h.token t (List.mem_append_right taken ht)⟩

theorem Known.of_cons (h : Known columns n (t :: ts)) : Known columns n ts :=
  ⟨h.ending, fun u hu => h.token u (List.mem_cons_of_mem t hu)⟩

namespace Outcome

variable {Q : List Token → α → List Token → Prop} {R : List Token → β → List Token → Prop}
  {r r' : Except Error (α × List Token)}

theorem weaken {Q' : List Token → α → List Token → Prop} (h : Outcome columns room Q ts r r')
    (hroom : room' ≤ room) (hQ : ∀ taken a rest, ts = taken ++ rest → Q taken a rest →
      Q' taken a rest) :
    Outcome columns room' Q' ts r r' := by
  cases h with
  | ok taken split holds => exact .ok taken split (hQ _ _ _ split holds)
  | refused column => exact .refused column
  | tooDeep column short => exact .tooDeep column (lt_of_le_of_lt hroom short)

theorem less (h : Outcome columns room Q ts r r') (hroom : room' ≤ room) :
    Outcome columns room' Q ts r r' :=
  h.weaken hroom fun _ _ _ _ => id

/-- The tokens stood behind others that had been taken. -/
theorem behind
    (h : Outcome columns (room - 9 * taken.length) (fun more => Q (taken ++ more)) rest r r')
    (split : ts = taken ++ rest) : Outcome columns room Q ts r r' := by
  subst split
  cases h with
  | ok more split holds => exact .ok (taken ++ more) (by rw [split, List.append_assoc]) holds
  | refused column => exact .refused column
  | tooDeep column short =>
    refine .tooDeep column ?_
    rw [List.length_append, Nat.cast_add]
    omega

theorem behindToken (h : Outcome columns (room - 9) (fun more => Q (t :: more)) ts r r') :
    Outcome columns room Q (t :: ts) r r' :=
  behind (h.less (by simp)) (List.singleton_append (x := t)).symm

/-- One parser after the other. -/
theorem bind {p q : Parser α} {f g : α → Parser β} (h : Outcome columns room Q ts (p n ts) (q n ts))
    (hf : ∀ taken a rest, ts = taken ++ rest → Q taken a rest →
      Outcome columns (room - 9 * taken.length) (fun more => R (taken ++ more)) rest (f a n rest)
        (g a n rest)) :
    Outcome columns room R ts ((p >>= f) n ts) ((q >>= g) n ts) := by
  generalize hp : p n ts = r at h
  generalize hq : q n ts = r' at h
  cases h with
  | ok taken split holds =>
    rw [run_bind_of_ok hp, run_bind_of_ok hq]
    exact (hf _ _ _ split holds).behind split
  | refused column =>
    rw [run_bind_of_error hp, run_bind_of_error hq]
    exact .refused column
  | tooDeep column short =>
    rw [run_bind_of_error hp]
    exact .tooDeep column short

theorem peek {f g : Option Token → Parser α}
    (h : Outcome columns room Q ts (f ts.head? n ts) (g ts.head? n ts)) :
    Outcome columns room Q ts ((peek? >>= f) n ts) ((peek? >>= g) n ts) := h

theorem refuse (h : Known columns n ts) :
    Outcome columns room Q ts ((Parser.refuse : Parser α) n ts)
      ((Parser.refuse : Parser α) n ts) := by
  cases ts with
  | nil => exact .refused h.ending
  | cons t ts => exact .refused (h.token t List.mem_cons_self)

/-- There is no room at all. -/
theorem noRoom {q : Parser α} (h : Known columns n ts) (hroom : room < 0) :
    Outcome columns room Q ts ((Parser.tooDeep : Parser α) n ts) (q n ts) := by
  have hshort : room < 9 * ts.length := by omega
  cases ts with
  | nil => exact .tooDeep h.ending hshort
  | cons t ts => exact .tooDeep (h.token t List.mem_cons_self) hshort

end Outcome

/-! ## Inside a statement -/

/-- A colon, an ELSE or an IF, which are no parts of other statements. -/
def Apart (t : Token) : Prop := t.kind = .colon ∨ t.kind = .keyword .ELSE ∨ t.kind = .keyword .IF

/-- All of these tokens may be parts of one statement. -/
def Plain (ts : List Token) : Prop := ∀ t ∈ ts, ¬Apart t

theorem plain_nil : Plain [] := List.forall_mem_nil _

theorem Plain.cons (h : ¬Apart t) (hts : Plain ts) : Plain (t :: ts) :=
  List.forall_mem_cons.mpr ⟨h, hts⟩

theorem Plain.append (h : Plain taken) (hrest : Plain rest) : Plain (taken ++ rest) :=
  List.forall_mem_append.mpr ⟨h, hrest⟩

/-- What comes of a parser, and of the same with room for one more open call, that takes only tokens
of one statement: `V` says of a result which tokens it was read from. -/
def Settles (columns : Set Nat) (n : Nat) (room : Int) (V : List Token → α → Prop)
    (p q : Parser α) : Prop :=
  ∀ ts, Known columns n ts →
    Outcome columns room (fun taken a _ => Plain taken ∧ V taken a) ts (p n ts) (q n ts)

/-- Nothing is said of the result. -/
def Any (_ : List Token) (_ : α) : Prop := True

/-- A token was taken. -/
def Advances (taken : List Token) (_ : α) : Prop := taken ≠ []

/-- What is said of a result still holds when more tokens were taken, before it or after it. -/
def Lasting (V : List Token → α → Prop) : Prop :=
  ∀ (before after : List Token) {taken : List Token} {a : α}, V taken a →
    V (before ++ taken ++ after) a

theorem lasting_any : Lasting (Any : List Token → α → Prop) := fun _ _ _ _ _ => trivial

namespace Settles

variable {V : List Token → α → Prop} {W : List Token → β → Prop} {p q : Parser α}
  {f g : α → Parser β}

theorem weaken {V' : List Token → α → Prop} (h : Settles columns n room V p q)
    (hroom : room' ≤ room) (hV : ∀ taken a, V taken a → V' taken a) :
    Settles columns n room' V' p q :=
  fun ts hknown => (h ts hknown).weaken hroom fun taken a _ _ hold => ⟨hold.1, hV taken a hold.2⟩

theorem less (h : Settles columns n room V p q) (hroom : room' ≤ room) :
    Settles columns n room' V p q :=
  h.weaken hroom fun _ _ => id

/-- The tokens that were taken make room for what follows. -/
theorem bindBehind (h : Settles columns n room V p q) (hf : ∀ a taken, V taken a →
    Settles columns n (room - 9 * taken.length) (fun more => W (taken ++ more)) (f a) (g a)) :
    Settles columns n room W (p >>= f) (q >>= g) := by
  intro ts hknown
  refine (h ts hknown).bind fun taken a rest split ⟨hplain, hV⟩ => ?_
  subst split
  refine (hf a taken hV rest hknown.of_append).weaken le_rfl fun more b left _ ⟨hmore, hW⟩ => ?_
  exact ⟨hplain.append hmore, hW⟩

theorem bind (h : Settles columns n room V p q) (hf : ∀ a taken, V taken a →
    Settles columns n room (fun more => W (taken ++ more)) (f a) (g a)) :
    Settles columns n room W (p >>= f) (q >>= g) :=
  h.bindBehind fun a taken hV => (hf a taken hV).less (by omega)

/-- What is said of the result holds of more tokens. -/
theorem last (h : Settles columns n room V p q) (hV : Lasting V) (before : List Token) :
    Settles columns n room (fun taken => V (before ++ taken)) p q := by
  refine h.weaken le_rfl fun taken a ha => ?_
  have hlast := hV before [] ha
  rwa [List.append_nil] at hlast

theorem pure {a : α} (h : V [] a) : Settles columns n room V (pure a) (pure a) :=
  fun _ _ => .ok [] rfl ⟨plain_nil, h⟩

theorem map {f : α → β} (h : Settles columns n room V p q)
    (hf : ∀ taken a, V taken a → W taken (f a)) :
    Settles columns n room W (f <$> p) (f <$> q) := by
  rw [← bind_pure_comp, ← bind_pure_comp]
  refine h.bind fun a taken hV => .pure ?_
  rw [List.append_nil]
  exact hf taken a hV

theorem refuseAt {i : Nat} (h : i ∈ columns) :
    Settles columns n room V (Parser.refuseAt i) (Parser.refuseAt i) :=
  fun _ _ => .refused h

theorem refuse : Settles columns n room V Parser.refuse Parser.refuse :=
  fun _ hknown => .refuse hknown

theorem noRoom (hroom : room < 0) : Settles columns n room V Parser.tooDeep q :=
  fun _ hknown => .noRoom hknown hroom

theorem get {f g : List Token → Parser α} (h : ∀ ts, Settles columns n room V (f ts) (g ts)) :
    Settles columns n room V (get >>= f) (get >>= g) :=
  fun ts hknown => h ts ts hknown

/-- One token of the statement has been taken. -/
theorem behind (h : Settles columns n (room - 9) (fun more => V (t :: more)) p q) (ht : ¬Apart t)
    (hknown : Known columns n (t :: ts)) :
    Outcome columns room (fun taken a _ => Plain taken ∧ V taken a) (t :: ts) (p n ts)
      (q n ts) := by
  refine .behindToken ?_
  exact (h ts hknown.of_cons).weaken le_rfl fun more a rest _ ⟨hplain, hV⟩ => ⟨hplain.cons ht, hV⟩

/-- What was taken for a result, and what the result is. -/
theorem exists_taken (h : Settles Set.univ n room V p q) {a : α} (hrun : p n ts = .ok (a, rest)) :
    ∃ taken, ts = taken ++ rest ∧ V taken a := by
  have houtcome := h ts ⟨Set.mem_univ _, fun _ _ => Set.mem_univ _⟩
  rw [hrun] at houtcome
  generalize q n ts = r at houtcome
  cases houtcome with
  | ok taken split holds => exact ⟨taken, split, holds.2⟩

theorem length_le (h : Settles Set.univ n room V p q) {a : α} (hrun : p n ts = .ok (a, rest)) :
    rest.length ≤ ts.length := by
  obtain ⟨taken, rfl, -⟩ := h.exists_taken hrun
  simp

theorem length_lt (h : Settles Set.univ n room Advances p q) {a : α}
    (hrun : p n ts = .ok (a, rest)) :
    rest.length < ts.length := by
  obtain ⟨taken, rfl, hne⟩ := h.exists_taken hrun
  have := List.length_pos_of_ne_nil hne
  simp only [List.length_append]
  omega

end Settles

/-! ## One token -/

/-- The test lets the tokens pass that are no part of another statement. -/
def Spares (f : Token → Option α) : Prop := ∀ t, Apart t → f t = none

theorem Spares.not_apart {f : Token → Option α} (h : Spares f) {a : α} (ht : f t = some a) :
    ¬Apart t := by
  intro hapart
  rw [h t hapart] at ht
  cases ht

/-- A token with a known column was taken and told what it is. -/
def Found (columns : Set Nat) (f : Token → Option α) (taken : List Token) (a : α) : Prop :=
  ∃ t, taken = [t] ∧ f t = some a ∧ t.column ∈ columns

/-- Nothing was taken for no result. -/
inductive Perhaps (V : List Token → α → Prop) : List Token → Option α → Prop where
  | none : Perhaps V [] none
  | some {taken : List Token} {a : α} (holds : V taken a) : Perhaps V taken (some a)

namespace Settles

variable {f : Token → Option α}

theorem accept (hf : Spares f) :
    Settles columns n room (Perhaps (Found columns f)) (accept? f) (accept? f) := by
  intro ts hknown
  cases ts with
  | nil => exact .ok [] rfl ⟨plain_nil, .none⟩
  | cons t ts =>
    rw [run_accept_cons]
    cases h : f t with
    | none => exact .ok [] rfl ⟨plain_nil, .none⟩
    | some a =>
      refine .ok [t] rfl ⟨plain_nil.cons (hf.not_apart h), .some ⟨t, rfl, h, ?_⟩⟩
      exact hknown.token t List.mem_cons_self

theorem accepts {f : Token → Option Token} (hf : Spares f) :
    Settles columns n room (fun taken b => taken.length = b.toNat) (accepts f) (accepts f) := by
  refine (accept hf).bind fun found taken hfound => .pure ?_
  cases hfound with
  | none => rfl
  | some holds =>
    obtain ⟨t, rfl, -⟩ := holds
    rfl

/-- Goes on in one way behind a token that a test knows, and in the other in front of any other
token. -/
theorem ifAccepts {f : Token → Option Token} {V : List Token → β → Prop} {p q p' q' : Parser β}
    (hf : Spares f) (h : ∀ t, Settles columns n (room - 9) (fun more => V (t :: more)) p q)
    (h' : Settles columns n room V p' q') :
    Settles columns n room V (do if ← Parser.accepts f then p else p')
      (do if ← Parser.accepts f then q else q') := by
  refine (accepts hf).bindBehind fun b taken htaken => ?_
  cases b with
  | false =>
    obtain rfl := List.eq_nil_of_length_eq_zero htaken
    exact h'.less (by simp)
  | true =>
    obtain ⟨t, rfl⟩ := List.length_eq_one_iff.mp htaken
    exact (h t).less (by simp)

theorem expect (hf : Spares f) :
    Settles columns n room (Found columns f) (expect f) (expect f) := by
  refine (accept hf).bind fun found taken hfound => ?_
  cases hfound with
  | none => exact .refuse
  | some holds => exact .pure ((List.append_nil _).symm ▸ holds)

theorem discard (hf : Spares f) :
    Settles columns n room (fun taken _ => ∃ a, Found columns f taken a)
    (discard (Parser.expect f)) (discard (Parser.expect f)) :=
  (expect hf).map fun _ a hfound => ⟨a, hfound⟩

end Settles

/-! ## Lists -/

section Lists

variable {V : List Token → α → Prop} {item item' : Parser α}

theorem spares_that {p : TokenKind → Bool} (hcolon : p .colon = false)
    (hword : ∀ k, p (.keyword k) = false) :
    Spares (that p) := by
  rintro t (h | h | h) <;> exact if_neg (by simp [h, hcolon, hword])

theorem spares_isComma : Spares isComma := spares_that rfl fun _ => rfl

theorem Settles.commaTail (h : Settles columns n room V item item') (hV : Lasting V) (k : Nat) :
    Settles columns n room (fun taken as => ∀ a ∈ as, V taken a) (commaTail item k)
      (commaTail item' k) := by
  induction k with
  | zero => exact .pure (List.forall_mem_nil _)
  | succ k ih =>
    refine .ifAccepts spares_isComma (fun t => ?_) (.pure (List.forall_mem_nil _))
    refine Settles.less (?_ : Settles columns n room _ _ _) (by omega)
    refine h.bind fun a first ha => ih.bind fun as second has => .pure ?_
    rintro b (_ | ⟨_, hb⟩)
    · exact hV [t] (second ++ []) ha
    · have hlast := hV (t :: first) [] (has b hb)
      simpa using hlast

theorem Settles.commaList (h : Settles columns n room V item item') (hV : Lasting V) :
    Settles columns n room (fun taken as => as ≠ [] ∧ ∀ a ∈ as, V taken a) (commaList item)
      (commaList item') := by
  refine h.bind fun a first ha => .get fun ts =>
    (h.commaTail hV ts.length).bind fun as second has => .pure ?_
  refine ⟨List.cons_ne_nil a as, ?_⟩
  rintro b (_ | ⟨_, hb⟩)
  · exact hV [] (second ++ []) ha
  · have hlast := hV first [] (has b hb)
    simpa using hlast

end Lists

/-! ## Loops -/

theorem run_bind_congr {p q : Parser α} {f g : α → Parser β} (hp : p n ts = q n ts)
    (h : ∀ a rest, p n ts = .ok (a, rest) → f a n rest = g a n rest) :
    (p >>= f) n ts = (q >>= g) n ts := by
  cases hrun : p n ts with
  | error e => rw [run_bind_of_error hrun, run_bind_of_error (hp ▸ hrun)]
  | ok r => rw [run_bind_of_ok hrun, run_bind_of_ok (hp ▸ hrun), h r.1 r.2 hrun]

/-- The count of its rounds does not end the loop: any count that is at least the number of tokens
gives the same. -/
def Steady (loop : Nat → Parser α) : Prop :=
  ∀ n ts count, ts.length ≤ count → loop count n ts = loop ts.length n ts

/-- A loop is steady if each round goes on only behind a token that it has taken. -/
theorem steady_of_rounds {ι : Type} (loop : Nat → ι → Parser α)
    (hnil : ∀ k i n, loop k i n [] = loop 0 i n [])
    (hround : ∀ k k' n ts,
      (∀ j rest, rest.length < ts.length → loop k j n rest = loop k' j n rest) →
      ∀ i, loop (k + 1) i n ts = loop (k' + 1) i n ts) (i : ι) : Steady fun k => loop k i := by
  intro n ts
  induction hlength : ts.length using Nat.strong_induction_on generalizing ts i with
  | _ length ih =>
    intro count hcount
    subst hlength
    cases ts with
    | nil => exact hnil count i n
    | cons t ts =>
      obtain ⟨k, rfl⟩ := Nat.exists_eq_succ_of_ne_zero (Nat.ne_zero_of_lt hcount)
      rw [List.length_cons] at hcount
      refine hround k ts.length n (t :: ts) (fun j rest hrest => ?_) i
      have hsame := ih rest.length hrest j rest rfl
      rw [List.length_cons] at hrest
      exact (hsame k (by omega)).trans (hsame ts.length (by omega)).symm

theorem length_of_accepts {f : Token → Option Token} (h : accepts f n ts = .ok (true, rest)) :
    rest.length < ts.length := by
  obtain ⟨found, us, haccept, hfound⟩ := run_bind_eq_ok h
  obtain ⟨hsome, rfl⟩ := run_pure_eq_ok hfound
  obtain ⟨rfl, -⟩ | ⟨t, a, rfl, -⟩ := run_accept_eq_ok haccept
  · cases hsome
  · exact Nat.lt_succ_self _

theorem steady_commaTail {item : Parser α} (h : ∀ n ts a rest, item n ts = .ok (a, rest) →
    rest.length ≤ ts.length) :
    Steady (commaTail item) := by
  refine steady_of_rounds (fun k (_ : Unit) => commaTail item k) (fun k _ n => ?_)
    (fun k k' n ts hrest _ => ?_) ()
  · cases k <;> rfl
  · refine run_bind_congr rfl fun more us hmore => ?_
    cases more with
    | false => rfl
    | true =>
      refine run_bind_congr rfl fun a left ha => run_bind_congr ?_ fun _ _ _ => rfl
      exact hrest () left (lt_of_le_of_lt (h n us a left ha) (length_of_accepts hmore))

end LineBasic.Parser
