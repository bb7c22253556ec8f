import Mathlib
import LineBasic.Proofs.ExpressionReadings

/-!
# Two readings of a command

Two lists of tokens that say the same are read as the same commands, columns aside, with the
references and the remarks changed as the change says.

* `Change.SameCommand`: what two commands have in common.
* `Change.follows_refs`: the references behind GOTO and GOSUB follow the change.
* `Change.follows_keywordCommands`: the command behind a reserved word is read alike from the state
  after the word.
-/

namespace LineBasic

open LineBasic.Parser
open LineBasic.Program (RefState)

namespace Change

variable {c : Change} {α : Type} {s : RefState}

/-- Commands that are the same but for their columns, their references and their remarks. -/
def SameCommand (c : Change) (a b : Command) : Prop :=
  a.reform c.line c.remark = b.reform id c.remark

theorem sameCommand_iff {a b : Command} :
    c.SameCommand a b ↔ a.reform c.line c.remark = b.reform id c.remark := Iff.rfl

/-! ## The end of a statement -/

theorem Pair.isKeyword_eq {t u : Token} (k : Keyword) (h : c.Pair s t u) :
    (isKeyword k t).isSome = (isKeyword k u).isSome := by
  unfold isKeyword
  rw [h.keyword?_eq]
  split <;> rfl

theorem Pair.isColon_eq {t u : Token} (h : c.Pair s t u) :
    (isColon t).isSome = (isColon u).isSome := by
  unfold isColon that
  rcases h.same_or_number with hsame | ⟨v, w, ht, hu⟩
  · generalize t.kind = k at hsame
    generalize u.kind = k' at hsame
    cases hsame with
    | refl => cases k <;> rfl
    | _ => rfl
  · rw [ht, hu]
    rfl

theorem Pair.kind_eq_name {t u : Token} {kind : NameKind} {name : String} (h : c.Pair s t u) :
    t.kind = .name kind name ↔ u.kind = .name kind name := by
  rcases h.same_or_number with hsame | ⟨v, w, ht, hu⟩
  · generalize t.kind = k at hsame
    generalize u.kind = k' at hsame
    cases hsame <;> simp
  · simp [ht, hu]

theorem Pair.endsStatement_eq {t u : Token} (h : c.Pair s t u) :
    endsStatement t = endsStatement u := by
  unfold endsStatement
  rw [h.isColon_eq, h.isKeyword_eq .ELSE]

theorem Pair.isNumber_eq {t u : Token} (h : c.Pair s t u) :
    (isNumber t).isSome = (isNumber u).isSome := by
  unfold isNumber that
  rcases h.same_or_number with hsame | ⟨v, w, ht, hu⟩
  · generalize t.kind = k at hsame
    generalize u.kind = k' at hsame
    cases hsame with
    | refl => cases k <;> rfl
    | _ => rfl
  · rw [ht, hu]
    rfl

theorem follows_atEnd (s : RefState) :
    c.Follows (c.Aligned s) atEnd atEnd fun a b ts us => a = b ∧ c.Aligned s ts us := by
  refine Follows.peek fun ts us haligned => ?_
  have hends := haligned
  cases hends with
  | nil => exact .exactly (.pure fun _ _ h => ⟨rfl, h⟩) haligned
  | cons pair rest => exact .exactly (.pure fun _ _ h => ⟨pair.endsStatement_eq, h⟩) haligned

theorem reads_atEnd : c.Reads Eq atEnd atEnd := follows_atEnd .none

/-- Both readings see a number at the front, or neither does. -/
theorem follows_sees (s : RefState) :
    c.Follows (c.Aligned s) (sees isNumber) (sees isNumber) fun a b ts us =>
      a = b ∧ c.Aligned s ts us ∧ (a = false → ∀ t ∈ ts.head?, ∀ v, t.kind ≠ .number v) := by
  refine Follows.peek fun ts us haligned => .pure ?_
  rintro _ _ ⟨rfl, rfl⟩
  refine ⟨?_, haligned, fun hfalse t ht v hv => ?_⟩
  · cases haligned with
    | nil => rfl
    | cons pair rest => exact pair.isNumber_eq
  · rw [Option.mem_def] at ht
    simp [ht, isNumber, that, hv] at hfalse

theorem reads_sees : c.Reads Eq (sees isNumber) (sees isNumber) :=
  (follows_sees .none).weaken (fun _ _ => id) fun _ _ _ _ ⟨heq, haligned, _⟩ => ⟨heq, haligned⟩

/-! ## Parts of commands -/

theorem reads_target (depth : Nat) : c.Reads SameTarget (target depth) (target depth) :=
  (readsAlike depth).target

theorem reads_assignment (depth : Nat) :
    c.Reads c.SameCommand (assignment depth) (assignment depth) := by
  refine (reads_target depth).bind fun x y hxy => agrees_isEquals.discard.bind fun _ _ _ => ?_
  refine (reads_expression depth).bind fun e e' he => .pure ?_
  rw [sameCommand_iff, Command.reform, Command.reform, hxy, he]

/-- An expression behind a sign, if the sign is there. -/
theorem reads_optional {f : Token → Option Token} (hf : c.Agrees (fun _ _ => True) f) {γ δ : Type}
    {S : γ → δ → Prop} {p : Option Expr → Parser γ} {q : Option Expr → Parser δ} (depth : Nat)
    (h : ∀ e e', e.map Expr.plain = e'.map Expr.plain → c.Reads S (p e) (q e')) :
    c.Reads S
      (accepts f >>= fun b => if b = true then some <$> expression depth >>= p else pure none >>= p)
      (accepts f >>= fun b => if b = true then some <$> expression depth >>= q
        else pure none >>= q) := by
  refine hf.accepts.bind ?_
  rintro given _ rfl
  cases given with
  | false => exact h none none rfl
  | true =>
    refine Reads.bind (R := fun x y => x.map Expr.plain = y.map Expr.plain) ?_ h
    refine (reads_expression depth).map fun e e' he => ?_
    rw [Option.map_some, Option.map_some, he]

theorem reads_partAssignment (depth : Nat) :
    c.Reads c.SameCommand (partAssignment depth) (partAssignment depth) := by
  refine agrees_isOpening.discard.bind fun _ _ _ => (reads_target depth).bind fun x y hxy => ?_
  refine agrees_isComma.discard.bind fun _ _ _ =>
    (reads_expression depth).bind fun start start' hstart => ?_
  refine reads_optional agrees_isComma depth fun length length' hlength => ?_
  refine agrees_isClosing.discard.bind fun _ _ _ => agrees_isEquals.discard.bind fun _ _ _ => ?_
  refine (reads_expression depth).bind fun e e' he => .pure ?_
  rw [sameCommand_iff, Command.reform, Command.reform, hxy, hstart, hlength, he]

theorem reads_printItems (depth n : Nat) :
    c.Reads (List.Forall₂ fun x y => x.plain = y.plain) (printItems depth n)
      (printItems depth n) := by
  induction n with
  | zero => exact .pure .nil
  | succ n ih =>
    refine Follows.peek fun ts us haligned => ?_
    cases haligned with
    | nil => exact .exactly (Reads.pure .nil) .nil
    | @cons _ t u ts us pair rest =>
      have haligned : c.Aligned .none (t :: ts) (u :: us) := .cons pair rest
      simp only [List.head?_cons, pair.endsStatement_eq]
      cases endsStatement u with
      | true => exact .exactly (Reads.pure .nil) haligned
      | false =>
        -- a separator is taken, anything else begins an expression
        have hvalue : c.Reads (List.Forall₂ fun x y => x.plain = y.plain)
            (PrintItem.value <$> expression depth >>= fun item => printItems depth n >>= fun rest =>
              pure (item :: rest))
            (PrintItem.value <$> expression depth >>= fun item =>
              printItems depth n >>= fun rest => pure (item :: rest)) := by
          refine Reads.bind (R := fun x y => x.plain = y.plain) ?_ fun x y hxy => ?_
          · exact (reads_expression depth).map fun e e' he => congrArg PrintItem.value he
          · exact ih.bind fun as bs habs => .pure (.cons hxy habs)
        obtain ⟨kind, i, stop, text⟩ := t
        obtain ⟨kind', j, stop', text'⟩ := u
        have hsame : c.Same kind kind' := pair.means
        cases hsame with
        | question | dataText items | remark text => exact .exactly hvalue haligned
        | refl =>
          cases kind with
          | semicolon | comma =>
            refine Follows.tail.bind fun _ _ => .exactly ?_ rest
            exact ih.bind fun as bs habs => .pure (.cons rfl habs)
          | _ => exact .exactly hvalue haligned

theorem reads_targets (depth : Nat) :
    c.Reads (fun xs ys => xs.map Target.plain = ys.map Target.plain) (commaList (target depth))
      (commaList (target depth)) :=
  (reads_target depth).commaList.weaken (fun _ _ => id) fun _ _ _ _ ⟨h, hrest⟩ =>
    ⟨map_eq_of_forall₂ h, hrest⟩

theorem reads_inputCommand (depth : Nat) :
    c.Reads c.SameCommand (inputCommand depth) (inputCommand depth) := by
  refine Reads.bind (R := fun _ _ => True) (agrees_isComma.accepts.map fun _ _ _ => trivial)
    fun _ _ _ => ?_
  refine agrees_stringText.accept.bind fun a b hab => ?_
  cases hab with
  | none =>
    refine (reads_targets depth).bind fun xs ys hxs => .pure ?_
    rw [sameCommand_iff, Command.reform, Command.reform, hxs]
  | @some prompt prompt' hprompt =>
    subst hprompt
    refine agrees_promptMark.expect.bind ?_
    rintro question _ rfl
    refine (reads_targets depth).bind fun xs ys hxs => .pure ?_
    rw [sameCommand_iff, Command.reform, Command.reform, hxs]

theorem reads_forCommand (depth : Nat) :
    c.Reads c.SameCommand (forCommand depth) (forCommand depth) := by
  refine agrees_numericName.expect.bind ?_
  rintro var _ rfl
  refine agrees_isEquals.discard.bind fun _ _ _ =>
    (reads_expression depth).bind fun start start' hstart => ?_
  refine (agrees_isKeyword rfl).discard.bind fun _ _ _ =>
    (reads_expression depth).bind fun limit limit' hlimit => ?_
  refine reads_optional (agrees_isKeyword rfl) depth fun step step' hstep => .pure ?_
  rw [sameCommand_iff, Command.reform, Command.reform, hstart, hlimit, hstep]

theorem reads_nextCommands : c.Reads (List.Forall₂ c.SameCommand) nextCommands nextCommands := by
  refine reads_atEnd.bind ?_
  rintro ended _ rfl
  cases ended with
  | true => exact .pure (.cons rfl .nil)
  | false =>
    refine agrees_numericName.expect.commaList.bind fun vars vars' hvars => .pure ?_
    rw [List.forall₂_eq_eq_eq] at hvars
    subst hvars
    rw [List.forall₂_map_left_iff, List.forall₂_map_right_iff, List.forall₂_same]
    exact fun _ _ => rfl

theorem reads_dimension (depth : Nat) :
    c.Reads (fun x y => (x.1, x.2.map Expr.plain) = (y.1, y.2.map Expr.plain)) (dimension depth)
      (dimension depth) := by
  refine agrees_name.expect.bind fun x y hname => agrees_isOpening.discard.bind fun _ _ _ => ?_
  refine (readsAlike depth).arguments.bind fun es es' hes => .pure ?_
  rw [map_plain hes]
  exact congrArg (·, _) hname

theorem reads_parameters : c.Reads Eq parameters parameters := by
  refine agrees_isClosing.accepts.bind ?_
  rintro closed _ rfl
  cases closed with
  | true => exact .pure rfl
  | false =>
    have hname : c.Reads Eq (Prod.fst <$> expect name?) (Prod.fst <$> expect name?) :=
      agrees_name.expect.map fun _ _ => id
    refine hname.commaList.bind fun names names' hnames =>
      agrees_isClosing.discard.bind fun _ _ _ => .pure ?_
    rwa [List.forall₂_eq_eq_eq] at hnames

theorem reads_defineCommand (depth : Nat) :
    c.Reads c.SameCommand (defineCommand depth) (defineCommand depth) := by
  refine (agrees_isKeyword rfl).discard.bind fun _ _ _ => reads_functionName.bind ?_
  rintro name _ rfl
  have hbody : ∀ params : List String, c.Reads c.SameCommand
      (discard (expect isEquals) >>= fun _ => expression depth >>= fun e =>
        pure (.define name params e))
      (discard (expect isEquals) >>= fun _ => expression depth >>= fun e =>
          pure (.define name params e)) := by
    intro params
    refine agrees_isEquals.discard.bind fun _ _ _ => (reads_expression depth).bind fun e e' he =>
      .pure ?_
    rw [sameCommand_iff, Command.reform, Command.reform, he]
  refine agrees_isOpening.accepts.bind ?_
  rintro opened _ rfl
  cases opened with
  | false => exact hbody []
  | true =>
    refine reads_parameters.bind ?_
    rintro params _ rfl
    exact hbody params

theorem agrees_realName : c.Agrees (fun a b => a.1 = b.1 ∧ c.column a.2 b.2) fun t : Token =>
    match t.kind with
    | .name .real s => some (s, t.column)
    | _ => none := by
  refine agrees_of_kind (fun t u h hcolumn => ?_) fun t h => ?_
  · rw [h]
    split <;> simp [hcolumn]
  · split <;> simp_all [isSteady]

theorem reads_letter : c.Reads (fun x y => x.1 = y.1 ∧ c.column x.2 y.2) letter letter := by
  refine agrees_realName.expect.bind fun x y hxy => ?_
  obtain ⟨name, i⟩ := x
  obtain ⟨name', j⟩ := y
  obtain ⟨rfl, hcolumn⟩ : name = name' ∧ c.column i j := hxy
  simp only
  split
  · exact .pure ⟨rfl, hcolumn⟩
  · exact .refuseAt hcolumn

theorem reads_letterRange : c.Reads Eq letterRange letterRange := by
  refine reads_letter.bind fun x y hfirst => agrees_isMinus.accepts.bind ?_
  rintro ranged _ rfl
  obtain ⟨first, i⟩ := x
  obtain ⟨first', j⟩ := y
  obtain ⟨rfl, -⟩ : first = first' ∧ c.column i j := hfirst
  cases ranged with
  | false => exact .pure rfl
  | true =>
    refine reads_letter.bind fun x y hlast => ?_
    obtain ⟨last, i⟩ := x
    obtain ⟨last', j⟩ := y
    obtain ⟨rfl, hcolumn⟩ : last = last' ∧ c.column i j := hlast
    by_cases hlt : last < first
    · simp only [hlt, if_true]
      exact .refuseAt hcolumn
    · simp only [hlt, if_false]
      exact .pure rfl

theorem reads_declareCommand (kind : Kind) :
    c.Reads c.SameCommand (declareCommand kind) (declareCommand kind) := by
  refine reads_letterRange.commaList.bind fun letters letters' h => .pure ?_
  rw [List.forall₂_eq_eq_eq] at h
  rw [sameCommand_iff, h]
  rfl

theorem reads_eraseNames (n : Nat) : c.Reads Eq (eraseNames n) (eraseNames n) := by
  induction n with
  | zero => exact .pure rfl
  | succ n ih =>
    refine reads_atEnd.bind ?_
    rintro ended _ rfl
    cases ended with
    | true => exact .pure rfl
    | false =>
      refine agrees_name.expect.bind fun x y hname => agrees_isComma.accepts.bind ?_
      rintro more _ rfl
      obtain ⟨name, i⟩ := x
      obtain ⟨name', j⟩ := y
      obtain rfl : name = name' := hname
      cases more with
      | false => exact .pure rfl
      | true => exact ih.bind fun names names' h => .pure (h ▸ rfl)

theorem reads_optionalNumber : c.Reads Eq optionalNumber optionalNumber := by
  refine reads_sees.bind ?_
  rintro seen _ rfl
  cases seen with
  | false => exact .pure rfl
  | true => exact reads_lineNumber.map fun _ _ => congrArg some

theorem reads_lineRange : c.Reads Eq lineRange lineRange := by
  refine reads_sees.bind ?_
  rintro seen _ rfl
  cases seen with
  | true =>
    refine reads_lineNumber.bind ?_
    rintro first _ rfl
    refine agrees_isMinus.accepts.bind ?_
    rintro ranged _ rfl
    cases ranged with
    | false => exact .pure rfl
    | true => exact reads_optionalNumber.bind fun last last' h => .pure (h ▸ rfl)
  | false =>
    refine agrees_isMinus.accepts.bind ?_
    rintro ranged _ rfl
    cases ranged with
    | false => exact .pure rfl
    | true => exact reads_optionalNumber.bind fun last last' h => .pure (h ▸ rfl)

theorem reads_renumberCommand : c.Reads c.SameCommand renumberCommand renumberCommand := by
  refine reads_optionalNumber.bind ?_
  rintro newStart _ rfl
  refine agrees_isComma.accepts.bind ?_
  rintro more _ rfl
  cases more with
  | false => exact .pure rfl
  | true =>
    refine reads_optionalNumber.bind ?_
    rintro oldStart _ rfl
    refine agrees_isComma.accepts.bind ?_
    rintro more _ rfl
    cases more with
    | false => exact .pure rfl
    | true => exact reads_optionalNumber.bind fun step step' h => .pure (h ▸ rfl)

theorem agrees_dataText : c.Agrees (fun s s' => dataItems s = dataItems s') dataText? where
  rel t u h _ := by
    unfold dataText?
    generalize t.kind = k at h
    generalize u.kind = k' at h
    cases h with
    | refl => split <;> simp
    | dataText items => exact .some items
    | question | remark => exact .none
  after t s h := by
    unfold dataText? at h
    split at h
    · rename_i hk
      change RefState.none.next t = .none
      simp [RefState.next, hk]
    · cases h

theorem agrees_remarkText : c.Agrees (fun s s' => c.remark s = c.remark s') remarkText? where
  rel t u h _ := by
    unfold remarkText?
    generalize t.kind = k at h
    generalize u.kind = k' at h
    cases h with
    | refl => split <;> simp
    | remark text => exact .some text
    | question | dataText => exact .none
  after t s h := by
    unfold remarkText? at h
    split at h
    · rename_i hk
      change RefState.none.next t = .none
      simp [RefState.next, hk]
    · cases h

/-! ## References -/

/-- References to a line and to the line it has become. -/
def SameRef (c : Change) (r r' : LineRef) : Prop := r.reform c.line = r'.reform id

/-- References after the first in a list. -/
theorem follows_refTail (n : Nat) :
    c.Follows (c.Aligned .more) (commaTail lineRef n) (commaTail lineRef n) fun a b ts us =>
      List.Forall₂ c.SameRef a b ∧ c.Aligned .more ts us := by
  induction n with
  | zero => exact .pure fun _ _ h => ⟨.nil, h⟩
  | succ n ih =>
    refine (follows_accepts (s := .more) (agrees_isComma.pair (.inr rfl))).bind fun more more' => ?_
    refine .lists fun ts us hmore => ?_
    obtain ⟨rfl, hfalse, htrue⟩ := hmore
    cases more with
    | false => exact .exactly (.pure fun _ _ h => ⟨.nil, h⟩) (hfalse rfl).1
    | true =>
      obtain ⟨t, x, ht, hrest⟩ := htrue rfl
      have hlist : RefState.more.after t = .list := by
        have hcomma : t.kind = .comma := by
          unfold isComma that at ht
          cases hk : t.kind <;> simp [hk] at ht ⊢
        rw [after_eq_next fun v hv => by rw [hcomma] at hv; cases hv]
        simp [RefState.next, hcomma]
      rw [hlist] at hrest
      refine .exactly ?_ hrest
      refine (follows_lineRef (Or.inl rfl)).bind fun r r' => .lists fun ts us href =>
        .exactly ?_ href.2
      exact ih.bind fun rs rs' => .pure fun _ _ hrefs => ⟨.cons href.1 hrefs.1, hrefs.2⟩

/-- A list of references. -/
theorem follows_refs :
    c.Follows (c.Aligned .list) (commaList lineRef) (commaList lineRef) fun a b ts us =>
      List.Forall₂ c.SameRef a b ∧ c.Loose ts us := by
  refine (follows_lineRef (Or.inl rfl)).bind fun r r' => .lists fun ts us ⟨hr, hrest⟩ =>
    .exactly ?_ hrest
  refine Follows.get fun ts us hrest => ?_
  rw [hrest.length_eq]
  refine .exactly ?_ hrest
  exact (follows_refTail us.length).bind fun rs rs' => .pure fun _ _ ⟨hrs, hrest⟩ =>
    ⟨.cons hr hrs, .more, hrest⟩

theorem after_of_jumpKind? {t : Token} {b : Bool} (h : jumpKind? t = some b) :
    s.after t = .list := by
  unfold jumpKind? at h
  split at h
  · rename_i hk
    exact after_of_keyword? (k := .GOTO) (by simp [Token.keyword?, hk])
  · rename_i hk
    exact after_of_keyword? (k := .GOSUB) (by simp [Token.keyword?, hk])
  · cases h

theorem rel_jumpKind? {t u : Token} (h : c.Same t.kind u.kind) :
    Option.Rel Eq (jumpKind? t) (jumpKind? u) := by
  unfold jumpKind?
  generalize t.kind = k at h
  generalize u.kind = k' at h
  cases h with
  | refl => split <;> simp
  | question | dataText | remark => exact .none

theorem follows_onCommand (depth : Nat) :
    c.Follows (c.Aligned .none) (onCommand depth) (onCommand depth) fun a b ts us =>
      c.SameCommand a b ∧ c.Loose ts us := by
  refine Follows.bind (reads_expression depth) fun e e' => .lists fun ts us ⟨he, hrest⟩ =>
    .exactly ?_ hrest
  refine (follows_expect (s := .none) fun _ _ pair => rel_jumpKind? pair.means).bind
    fun isGosub isGosub' => ?_
  refine .lists fun ts us ⟨heq, t, ht, hrest⟩ => ?_
  subst heq
  rw [after_of_jumpKind? ht] at hrest
  refine .exactly ?_ hrest
  refine follows_refs.bind fun refs refs' => .pure fun ts us ⟨hrefs, hrest⟩ => ⟨?_, hrest⟩
  have hmap : refs.map (LineRef.reform c.line) = refs'.map (LineRef.reform id) :=
    map_eq_of_forall₂ hrefs
  cases isGosub with
  | false =>
    change Command.reform _ _ (.onGoto e refs) = Command.reform _ _ (.onGoto e' refs')
    rw [Command.reform, Command.reform, he, hmap]
  | true =>
    change Command.reform _ _ (.onGosub e refs) = Command.reform _ _ (.onGosub e' refs')
    rw [Command.reform, Command.reform, he, hmap]

theorem follows_runCommand (depth : Nat) :
    c.Follows (c.Aligned .one) (runCommand depth) (runCommand depth) fun a b ts us =>
      c.SameCommand a b ∧ c.Loose ts us := by
  refine (follows_sees .one).bind fun seen seen' => .lists fun ts us ⟨heq, hrest, hhead⟩ => ?_
  subst heq
  cases seen with
  | true =>
    refine .exactly ?_ hrest
    refine (follows_lineRef (Or.inr rfl)).bind fun r r' => .pure fun ts us ⟨hr, hrest⟩ =>
      ⟨?_, _, hrest⟩
    rw [sameCommand_iff, Command.reform, Command.reform, Option.map_some, Option.map_some, hr]
  | false =>
    have hcalm : c.Aligned .none ts us := hrest.calm fun t ht => ⟨hhead rfl t ht, by simp⟩
    refine .exactly ?_ hcalm
    refine Follows.bind reads_atEnd fun ended ended' => .lists fun ts us ⟨heq, hrest⟩ =>
      .exactly ?_ hrest
    subst heq
    cases ended with
    | true => exact .pure fun _ _ h => ⟨rfl, _, h⟩
    | false =>
      refine Follows.bind (reads_expression depth) fun e e' => .pure fun ts us ⟨he, hrest⟩ =>
        ⟨?_, _, hrest⟩
      rw [sameCommand_iff, Command.reform, Command.reform, he]

theorem Aligned.skipStatement {ts us : List Token} (h : c.Aligned s ts us) :
    c.Loose (skipStatement ts) (skipStatement us) := by
  induction h with
  | nil => exact ⟨.none, .nil⟩
  | cons pair rest ih =>
    unfold Parser.skipStatement
    rw [pair.endsStatement_eq]
    split
    · exact ⟨_, .cons pair rest⟩
    · exact ih

theorem skipStatement_suffix (ts : List Token) : skipStatement ts <:+ ts := by
  induction ts with
  | nil => exact List.suffix_refl _
  | cons t ts ih =>
    unfold skipStatement
    split
    · exact List.suffix_refl _
    · exact ih.trans (List.suffix_cons t ts)

/-! ## Commands -/

/-- Both parsers read the same commands from a state on. -/
def ReadsCommands (c : Change) (s : RefState) (p q : Parser (List Command)) : Prop :=
  c.Follows (c.Aligned s) p q fun a b ts us => List.Forall₂ c.SameCommand a b ∧ c.Loose ts us

namespace ReadsCommands

theorem pure {a b : Command} (h : c.SameCommand a b) : c.ReadsCommands s (pure [a]) (pure [b]) :=
  Follows.pure fun _ _ haligned => ⟨.cons h .nil, s, haligned⟩

/-- One command that is made of what is read. -/
theorem one {R : α → α → Prop} {p q : Parser α} {f g : α → Command} (h : c.Reads R p q)
    (hf : ∀ a b, R a b → c.SameCommand (f a) (g b)) :
    c.ReadsCommands .none (p >>= fun a => Pure.pure [f a]) (q >>= fun b => Pure.pure [g b]) :=
  Follows.bind h fun a b => .pure fun _ _ ⟨hab, hrest⟩ => ⟨.cons (hf a b hab) .nil, .none, hrest⟩

/-- One command that is made of a reference. -/
theorem ref {f g : LineRef → Command} (hs : s = .list ∨ s = .one)
    (hf : ∀ r r', c.SameRef r r' → c.SameCommand (f r) (g r')) :
    c.ReadsCommands s (lineRef >>= fun r => Pure.pure [f r])
      (lineRef >>= fun r => Pure.pure [g r]) :=
  Follows.bind (follows_lineRef hs) fun r r' => .pure fun _ _ ⟨hr, hrest⟩ =>
    ⟨.cons (hf r r' hr) .nil, _, hrest⟩

end ReadsCommands

/-- **The command behind a reserved word is read alike**, from the state after the word. -/
theorem follows_keywordCommands {depth : Nat} {k : Keyword} {p : Parser (List Command)}
    (h : keywordCommands depth k = some p) : c.ReadsCommands (RefState.ofKeyword k) p p := by
  cases k with
  | LET =>
    obtain rfl := Option.some.inj h
    refine Follows.bind (agrees_isKeyword rfl).accepts fun part part' =>
      .lists fun ts us ⟨heq, hrest⟩ => ?_
    subst heq
    refine .exactly ?_ hrest
    cases part with
    | true => exact ReadsCommands.one (reads_partAssignment depth) fun _ _ => id
    | false => exact ReadsCommands.one (reads_assignment depth) fun _ _ => id
  | builtin f =>
    cases f with
    | mid =>
      obtain rfl := Option.some.inj h
      exact ReadsCommands.one (reads_partAssignment depth) fun _ _ => id
    | _ => cases h
  | PRINT =>
    obtain rfl := Option.some.inj h
    refine Follows.get fun ts us haligned => .exactly ?_ haligned
    rw [haligned.length_eq]
    refine ReadsCommands.one (reads_printItems depth us.length) fun items items' hitems => ?_
    rw [sameCommand_iff, Command.reform, Command.reform, map_eq_of_forall₂ hitems]
  | INPUT =>
    obtain rfl := Option.some.inj h
    exact ReadsCommands.one (reads_inputCommand depth) fun _ _ => id
  | FOR =>
    obtain rfl := Option.some.inj h
    exact ReadsCommands.one (reads_forCommand depth) fun _ _ => id
  | NEXT =>
    obtain rfl := Option.some.inj h
    exact reads_nextCommands.weaken (fun _ _ => id) fun _ _ _ _ ⟨hcommands, hrest⟩ =>
      ⟨hcommands, .none, hrest⟩
  | GOTO =>
    obtain rfl := Option.some.inj h
    exact ReadsCommands.ref (Or.inl rfl) fun r r' hr => congrArg Command.goto hr
  | GOSUB =>
    obtain rfl := Option.some.inj h
    exact ReadsCommands.ref (Or.inl rfl) fun r r' hr => congrArg Command.gosub hr
  | ON =>
    obtain rfl := Option.some.inj h
    exact (follows_onCommand depth).bind fun a b => .pure fun _ _ ⟨hab, hrest⟩ =>
      ⟨.cons hab .nil, hrest⟩
  | DIM =>
    obtain rfl := Option.some.inj h
    exact ReadsCommands.one (reads_dimension depth).commaList fun as bs hab =>
      congrArg Command.dim (map_eq_of_forall₂ hab)
  | DATA =>
    obtain rfl := Option.some.inj h
    exact ReadsCommands.one agrees_dataText.expect fun s s' hs => congrArg Command.data hs
  | READ =>
    obtain rfl := Option.some.inj h
    exact ReadsCommands.one (reads_targets depth) fun xs ys hxs => congrArg Command.read hxs
  | RESTORE =>
    obtain rfl := Option.some.inj h
    refine (follows_atEnd .one).bind fun ended ended' => .lists fun ts us ⟨heq, hrest⟩ =>
      .exactly ?_ hrest
    subst heq
    cases ended with
    | true => exact ReadsCommands.pure rfl
    | false =>
      exact ReadsCommands.ref (Or.inr rfl) fun r r' hr => congrArg (Command.restore ∘ some) hr
  | REM =>
    obtain rfl := Option.some.inj h
    refine ReadsCommands.one agrees_remarkText.accept fun a b hab => ?_
    cases hab with
    | none => rfl
    | some htext => exact congrArg Command.remark htext
  | WHILE =>
    obtain rfl := Option.some.inj h
    exact ReadsCommands.one (reads_expression depth) fun e e' he => congrArg Command.openWhile he
  | DEF =>
    obtain rfl := Option.some.inj h
    exact ReadsCommands.one (reads_defineCommand depth) fun _ _ => id
  | DEFINT | DEFSNG | DEFDBL | DEFSTR =>
    obtain rfl := Option.some.inj h
    exact ReadsCommands.one (reads_declareCommand _) fun _ _ => id
  | SWAP =>
    obtain rfl := Option.some.inj h
    refine Follows.bind (reads_target depth) fun x y => .lists fun ts us ⟨hxy, hrest⟩ =>
      .exactly ?_ hrest
    refine Follows.bind agrees_isComma.discard fun _ _ => .lists fun ts us ⟨_, hrest⟩ =>
      .exactly ?_ hrest
    refine ReadsCommands.one (reads_target depth) fun x' y' hxy' => ?_
    rw [sameCommand_iff, Command.reform, Command.reform, hxy, hxy']
  | ERASE =>
    obtain rfl := Option.some.inj h
    refine Follows.get fun ts us haligned => .exactly ?_ haligned
    rw [haligned.length_eq]
    exact ReadsCommands.one (reads_eraseNames us.length) fun names names' hnames =>
      congrArg Command.erase hnames
  | CLEAR =>
    obtain rfl := Option.some.inj h
    intro n m ts us _ haligned
    exact ⟨[.clear], skipStatement us, rfl, ⟨.cons rfl .nil, haligned.skipStatement⟩,
      skipStatement_suffix ts⟩
  | RUN =>
    obtain rfl := Option.some.inj h
    exact (follows_runCommand depth).bind fun a b => .pure fun _ _ ⟨hab, hrest⟩ =>
      ⟨.cons hab .nil, hrest⟩
  | LIST | DELETE =>
    obtain rfl := Option.some.inj h
    exact ReadsCommands.one reads_lineRange fun range range' hrange => hrange ▸ rfl
  | RENUM =>
    obtain rfl := Option.some.inj h
    exact ReadsCommands.one reads_renumberCommand fun _ _ => id
  | LOAD =>
    obtain rfl := Option.some.inj h
    exact ReadsCommands.one (reads_expression depth) fun e e' he => congrArg Command.load he
  | SAVE =>
    obtain rfl := Option.some.inj h
    exact ReadsCommands.one (reads_expression depth) fun e e' he => congrArg Command.save he
  | RETURN | END | STOP | WEND | CLS | CONT | TRON | TROFF | NEW =>
    obtain rfl := Option.some.inj h
    exact ReadsCommands.pure rfl
  | _ => cases h

end Change

end LineBasic
