import Mathlib
import LineBasic.Proofs.ParserRuns
import LineBasic.Proofs.Skeleton
import LineBasic.Proofs.WrittenExpressions

/-!
# Reading back what is written

An expression that is written is read as itself, columns aside, and nothing behind it is taken. The
parser refuses it only where too many calls would be open at once.

* `Parser.Stops`: the tokens that cannot continue an expression of a rank.
* `Expr.ReadAt`: the expression is read back where a rank is wanted.
* `Expr.LeadsAt`: reading the expression at a level leads to the loop over the level's operators,
  with the expression as the left operand. Operators of one level bind to the left because of this.
* `Expr.isReadBack`: both hold of every expression that can be written.
-/

namespace LineBasic

namespace Parser

variable {n depth : Nat} {t : Token} {ts rest : List Token}

/-! ## The end of an expression -/

/-- The tokens cannot continue an expression of the rank: they begin neither with an operator that
binds as tightly nor with an opening parenthesis. -/
def Stops (rank : Nat) (ts : List Token) : Prop :=
  ∀ t ∈ ts.head?, isOpening t = none ∧ ∀ op, binaryOp? t = some op → op.rank < rank

theorem stops_of_binaryOp?_eq_none {rank : Nat} (hopening : t.kind ≠ .opening)
    (hop : binaryOp? t = none) :
    Stops rank (t :: ts) := by
  rintro _ ⟨⟩
  refine ⟨isOpening_eq_none hopening, fun op hsome => ?_⟩
  rw [hop] at hsome
  cases hsome

theorem stops_comma {rank : Nat} (h : t.kind = .comma) : Stops rank (t :: ts) :=
  stops_of_binaryOp?_eq_none (by simp [h]) (by simp [binaryOp?, h])

theorem stops_closing {rank : Nat} (h : t.kind = .closing) : Stops rank (t :: ts) :=
  stops_of_binaryOp?_eq_none (by simp [h]) (by simp [binaryOp?, h])

theorem stops_operator {rank : Nat} {op : BinaryOp} (h : t.kind = op.tokenKind)
    (hrank : op.rank < rank) :
    Stops rank (t :: ts) := by
  rintro _ ⟨⟩
  have hop := binaryOp?_of_tokenKind h
  refine ⟨isOpening_eq_none fun hopening => ?_, fun op' hop' => ?_⟩
  · unfold binaryOp? at hop
    rw [hopening] at hop
    cases hop
  · rw [hop] at hop'
    cases hop'
    exact hrank

namespace Stops

variable {rank rank' level : Nat}

theorem mono (h : Stops rank ts) (hle : rank ≤ rank') : Stops rank' ts := fun t ht =>
  ⟨(h t ht).1, fun op hop => lt_of_lt_of_le ((h t ht).2 op hop) hle⟩

/-- Besides powers there are only the operators of the levels. -/
theorem of_power (h : Stops 7 ts) : Stops 6 ts := by
  refine fun t ht => ⟨(h t ht).1, fun op hop => ?_⟩
  have hlt := (h t ht).2 op hop
  cases hlevel : op.level? with
  | none => simp [BinaryOp.rank, hlevel] at hlt
  | some level =>
    have hlevel' : level < 5 := BinaryOp.level?_lt hlevel
    simp only [BinaryOp.rank, hlevel, Option.getD_some]
    omega

theorem run_accepts_opening (h : Stops rank ts) : accepts isOpening n ts = .ok (false, ts) :=
  run_accepts_of_none fun t ht => (h t ht).1

theorem run_accept_operator (h : Stops rank ts) (hle : rank ≤ level) :
    accept? (operatorAt? level) n ts = .ok (none, ts) := by
  refine run_accept_of_none fun t ht => ?_
  unfold operatorAt?
  split
  · rename_i op hop
    refine if_neg fun hlevel => ?_
    have hlt := (h t ht).2 op hop
    simp only [BinaryOp.rank, hlevel, Option.getD_some] at hlt
    omega
  · rfl

theorem run_accept_powerSign (h : Stops rank ts) (hle : rank ≤ 7) :
    accept? powerSign? n ts = .ok (none, ts) := by
  refine run_accept_of_none fun t ht => ?_
  unfold powerSign?
  split
  · rename_i hkind
    have hlt := (h t ht).2 (.arithmetic .pow) (binaryOp?_of_tokenKind hkind)
    change 7 < rank at hlt
    omega
  · rfl

/-- The loop over the operators of a level ends. -/
theorem run_operands (h : Stops rank ts) (hle : rank ≤ level) (operand : Parser Expr) (k : Nat)
    (left : Expr) :
    operands level operand k left n ts = .ok (left, ts) := by
  cases k with
  | zero => rfl
  | succ k => exact run_bind_of_ok (h.run_accept_operator hle)

end Stops

/-! ## One function for each rank -/

/-- Reads an expression of a rank or a tighter one. -/
def reader (rank depth : Nat) : Parser Expr :=
  if rank ≤ 5 then expressionAt depth rank
  else if rank = 6 then prefixed depth
  else if rank = 7 then powered depth
  else primary depth

theorem reader_of_le {rank : Nat} (h : rank ≤ 5) (depth : Nat) :
    reader rank depth = expressionAt depth rank := if_pos h

theorem reader_zero (rank : Nat) : reader rank 0 = tooDeep := by
  unfold reader
  split_ifs
  · rw [expressionAt]
  · rw [prefixed]
  · rw [powered]
  · rw [primary]

/-! ## Tokens that an operand begins with -/

theorem exists_of_enclosed {kinds : List TokenKind}
    (h : ts.map Token.kind = .opening :: (kinds ++ [.closing])) :
    ∃ o us c, ts = o :: (us ++ [c]) ∧ o.kind = .opening ∧ us.map Token.kind = kinds ∧
      c.kind = .closing := by
  obtain ⟨o, ts', rfl, ho, h⟩ := List.map_eq_cons_iff.mp h
  obtain ⟨us, vs, rfl, hus, hvs⟩ := List.map_eq_append_iff.mp h
  obtain ⟨c, ws, rfl, hc, hws⟩ := List.map_eq_cons_iff.mp hvs
  obtain rfl := List.map_eq_nil_iff.mp hws
  exact ⟨o, us, c, rfl, ho, hus, hc⟩

theorem run_primary_opening (h : t.kind = .opening) : primary (depth + 1) n (t :: ts) =
    (do let e ← expressionAt depth 0; discard <| expect isClosing; return e : Parser Expr) n
      ts := by
  rw [primary]
  obtain ⟨kind, i, stop, text⟩ := t
  cases h
  rfl

theorem run_primary_number {v : Value} (h : t.kind = .number v) :
    primary (depth + 1) n (t :: ts) = .ok (.literal t.column v, ts) := by
  rw [primary]
  obtain ⟨kind, i, stop, text⟩ := t
  cases h
  rfl

theorem run_primary_string {s : String} (h : t.kind = .string s) :
    primary (depth + 1) n (t :: ts) = .ok (.literal t.column (.text s), ts) := by
  rw [primary]
  obtain ⟨kind, i, stop, text⟩ := t
  cases h
  rfl

theorem run_primary_literal {v : Value} (h : t.kind = v.tokenKind) :
    primary (depth + 1) n (t :: ts) = .ok (.literal t.column v, ts) := by
  cases v with
  | text s => exact run_primary_string h
  | single x | double x => exact run_primary_number h

theorem run_primary_name {kind : NameKind} {name : String} (h : t.kind = .name kind name) :
    primary (depth + 1) n (t :: ts) = (do return (← target depth).toExpr : Parser Expr) n
      (t :: ts) := by
  rw [primary]
  obtain ⟨kind, i, stop, text⟩ := t
  cases h
  rfl

theorem name?_of_tokenKind {name : String} (h : t.kind = nameToken name) :
    name? t = some (name, t.column) := by
  unfold name?
  rw [h]
  rfl

/-- The call of a function, if the function takes that many arguments. -/
def builtinCall (column : Nat) (f : Builtin) (args : List Expr) : Parser Expr :=
  if f.accepts args.length then return .call column f args else refuseAt column

theorem run_primary_builtin {f : Builtin} (h : t.kind = .keyword (.builtin f)) :
    primary (depth + 1) n (t :: ts) = (do
      if ← accepts isOpening then
        if ← accepts isClosing then builtinCall t.column f []
        else arguments depth >>= builtinCall t.column f
      else builtinCall t.column f [] : Parser Expr) n ts := by
  rw [primary]
  obtain ⟨kind, i, stop, text⟩ := t
  cases h
  rfl

theorem run_primary_FN (h : t.kind = .keyword .FN) :
    primary (depth + 1) n (t :: ts) = (do
      let name ← functionName
      if ← accepts isOpening then arguments depth >>= fun es => return .userCall t.column name es
      else return .userCall t.column name [] : Parser Expr) n ts := by
  rw [primary]
  obtain ⟨kind, i, stop, text⟩ := t
  cases h
  rfl

theorem run_functionName_opening (h : t.kind = .opening) :
    functionName n (t :: ts) = .ok ("", t :: ts) := by
  have hpeek : peek? n (t :: ts) = .ok (some t, t :: ts) := rfl
  unfold functionName
  rw [run_bind_of_ok hpeek]
  simp only [isOpening_eq_some h]
  rfl

theorem run_functionName_of_ne (h : t.kind ≠ .opening) :
    functionName n (t :: ts) = (do return (← expect name?).1 : Parser String) n (t :: ts) := by
  have hpeek : peek? n (t :: ts) = .ok (some t, t :: ts) := rfl
  unfold functionName
  rw [run_bind_of_ok hpeek]
  simp only [isOpening_eq_none h]
  rfl

theorem run_functionName_name {name : String} (h : t.kind = nameToken name) :
    functionName n (t :: ts) = .ok (name, ts) := by
  rw [run_functionName_of_ne (by simp [h, nameToken])]
  exact run_bind_of_ok (run_expect_of_some (name?_of_tokenKind h))

end Parser

open LineBasic.Parser

variable {e left right : Expr} {es : List Expr} {n depth rank level : Nat} {t : Token}
  {ts rest : List Token}

/-- Where a rank is wanted, the expression is read back from what is written. -/
def Expr.ReadAt (e : Expr) (rank : Nat) : Prop :=
  ∀ (depth n : Nat) (ts rest : List Token), ts.map Token.kind = e.within rank → Stops rank rest →
    Comes (e.needs rank ≤ depth) (fun e' => e'.plain = e.plain) rest
    (reader rank depth n (ts ++ rest))

/-- Reading the expression at a level leads to the loop over the operators of the level, with the
expression as the left operand. -/
def Expr.LeadsAt (e : Expr) (level : Nat) : Prop :=
  ∀ (depth n : Nat) (ts rest tail : List Token) (fits : Prop) (R : Expr → Prop), ts.map Token.kind =
    e.within level →
    Stops (level + 1) rest →
    (∀ e' k, e'.plain = e.plain → rest.length ≤ k →
      Comes fits R tail (operands level (expressionAt depth (level + 1)) k e' n rest)) →
    Comes (e.needs level ≤ depth + 1 ∧ fits) R tail (expressionAt (depth + 1) level n (ts ++ rest))

namespace Expr

/-- Without any call left an expression is refused, so that only the other case has to be looked
at. -/
theorem readAt_of_succ (hrank : rank ≤ 8)
    (h : ∀ (depth n : Nat) (ts rest : List Token), ts.map Token.kind = e.within rank →
      Stops rank rest →
      Comes (e.needs rank ≤ depth + 1) (fun e' => e'.plain = e.plain) rest
        (reader rank (depth + 1) n (ts ++ rest))) :
    e.ReadAt rank := by
  intro depth n ts rest hts hrest
  cases depth with
  | zero =>
    rw [reader_zero]
    have hpos := e.needs_pos hrank
    exact .tooDeep (by omega)
  | succ depth => exact h depth n ts rest hts hrest

/-! ## From rank to rank -/

theorem leadsAt_of_readAt (hlevel : level < 5) (hrank : e.rank ≠ level) (h : e.ReadAt (level + 1)) :
    e.LeadsAt level := by
  intro depth n ts rest tail fits R hts hrest hloop
  rw [within_eq hrank] at hts
  have hread := h depth n ts rest hts hrest
  rw [reader_of_le (by omega)] at hread
  have hnot : ¬binaryLevels ≤ level := Nat.not_le_of_lt hlevel
  rw [expressionAt, if_neg hnot]
  refine (hread.bind fun e' he' => ?_).congr (and_congr_left' ?_)
  · have hget : (get : Parser (List Token)) n rest = .ok (rest, rest) := rfl
    exact Comes.after hget (hloop e' rest.length he' le_rfl)
  · rw [needs_eq (by omega) hrank]
    omega

theorem readAt_of_leadsAt (hlevel : level < 5) (h : e.LeadsAt level) : e.ReadAt level := by
  refine readAt_of_succ (by omega) fun depth n ts rest hts hrest => ?_
  rw [reader_of_le (by omega)]
  refine (h depth n ts rest rest True _ hts (hrest.mono (by omega)) fun e' k he' _ => ?_).congr
    (by rw [and_true])
  rw [hrest.run_operands le_rfl]
  exact .ok trivial he'

/-- An expression of another rank is read where the next rank is wanted. -/
theorem readAt_of_readAt_succ (hlt : rank < 8) (hrank : e.rank ≠ rank) (h : e.ReadAt (rank + 1)) :
    e.ReadAt rank := by
  by_cases hlevel : rank < 5
  · exact readAt_of_leadsAt hlevel (leadsAt_of_readAt hlevel hrank h)
  refine readAt_of_succ (by omega) fun depth n ts rest hts hrest => ?_
  rw [within_eq hrank] at hts
  have hread := h depth n ts rest hts (hrest.mono (by omega))
  have hneeds : e.needs (rank + 1) ≤ depth ↔ e.needs rank ≤ depth + 1 := by
    rw [needs_eq hlt hrank]
    omega
  obtain rfl | rfl | rfl : rank = 5 ∨ rank = 6 ∨ rank = 7 := by omega
  · -- behind the last level
    change Comes _ _ _ (expressionAt (depth + 1) 5 n (ts ++ rest))
    rw [expressionAt, if_pos (show binaryLevels ≤ 5 from le_rfl)]
    exact hread.congr hneeds
  · -- no operator in front
    change Comes _ _ _ (prefixed (depth + 1) n (ts ++ rest))
    rw [prefixed]
    obtain ⟨k, ks, hwithin, -, hunary⟩ := e.beginsWell_within 7
    obtain ⟨t, us, rfl, hkind, -⟩ := List.map_eq_cons_iff.mp (hts.trans hwithin)
    refine Comes.after (run_accept_of_none ?_) (hread.congr hneeds)
    rintro _ ⟨⟩
    exact hunary le_rfl t hkind
  · -- no power
    change Comes _ _ _ (powered (depth + 1) n (ts ++ rest))
    rw [powered]
    exact (hread.finish fun e' he' =>
      ⟨e', run_bind_of_ok (hrest.run_accept_powerSign le_rfl), he'⟩).congr hneeds

theorem readAt_of_le {least : Nat} (h : e.ReadAt rank) (hrank : rank ≤ 8) (hle : least ≤ rank)
    (hother : ∀ r, least ≤ r → r < rank → e.rank ≠ r) : e.ReadAt least :=
  Nat.decreasingInduction'
    (fun r hlt hge ih => readAt_of_readAt_succ (lt_of_lt_of_le hlt hrank) (hother r hge hlt) ih) hle
      h

/-- An expression in parentheses is an operand. -/
theorem readAt_parentheses (hrank : e.rank < 8) (h : e.ReadAt 0) : e.ReadAt 8 := by
  refine readAt_of_succ le_rfl fun depth n ts rest hts hrest => ?_
  have hwithin : e.within 8 = .opening :: (e.written ++ [.closing]) :=
    if_neg (Nat.not_le_of_lt hrank)
  obtain ⟨o, us, c, rfl, ho, hus, hc⟩ := exists_of_enclosed (hts.trans hwithin)
  have hread := h depth n us (c :: rest) (hus.trans (within_of_le (Nat.zero_le _)).symm)
    (stops_closing hc)
  change Comes _ _ _ (primary (depth + 1) n (o :: (us ++ [c] ++ rest)))
  rw [run_primary_opening ho, List.append_assoc]
  refine (hread.finish fun e' he' => ⟨e', ?_, he'⟩).congr ?_
  · exact run_bind_of_ok (run_discard_closing hc)
  · have hnot : ¬8 ≤ e.rank := Nat.not_le_of_lt hrank
    simp only [needs, neededCalls, if_neg hnot, Nat.zero_le, if_true]
    omega

/-- What holds of an expression that is read back wherever it is written. -/
structure IsReadBack (e : Expr) : Prop where
  readAt : ∀ rank ≤ 8, e.ReadAt rank
  leadsAt : ∀ level < 5, e.LeadsAt level

/-- It is enough that an expression is read back where its own rank is wanted. -/
theorem readAt_of_own (h : e.ReadAt e.rank) (hrank : rank ≤ 8) : e.ReadAt rank := by
  by_cases hle : rank ≤ e.rank
  · exact readAt_of_le h e.rank_le hle fun r _ hlt => (ne_of_lt hlt).symm
  · have hzero : e.ReadAt 0 := readAt_of_le h e.rank_le (Nat.zero_le _) fun r _ hlt =>
      (ne_of_lt hlt).symm
    have hoperand : e.ReadAt 8 := readAt_parentheses (by omega) hzero
    exact readAt_of_le hoperand le_rfl hrank fun r hge _ => by omega

theorem isReadBack_of_own (hlevel : 5 ≤ e.rank) (h : e.ReadAt e.rank) : e.IsReadBack where
  readAt _ hrank := readAt_of_own h hrank
  leadsAt level hlt := leadsAt_of_readAt hlt (by omega) (readAt_of_own h (by omega))

theorem isReadBack_of_leadsAt (hlevel : e.rank < 5) (h : e.LeadsAt e.rank) : e.IsReadBack where
  readAt _ hrank := readAt_of_own (readAt_of_leadsAt hlevel h) hrank
  leadsAt level hlt := by
    by_cases heq : e.rank = level
    · exact heq ▸ h
    · exact leadsAt_of_readAt hlt heq (readAt_of_own (readAt_of_leadsAt hlevel h) (by omega))

/-- The rule for an expression where its own rank is wanted: there are no parentheses. -/
theorem readAt_rank
    (h : ∀ (depth n : Nat) (ts rest : List Token), ts.map Token.kind = e.written →
      Stops e.rank rest →
      Comes (e.height ≤ depth + 1) (fun e' => e'.plain = e.plain) rest
        (reader e.rank (depth + 1) n (ts ++ rest))) :
    e.ReadAt e.rank := by
  refine readAt_of_succ e.rank_le fun depth n ts rest hts hrest => ?_
  rw [within_of_le le_rfl] at hts
  exact (h depth n ts rest hts hrest).congr (by simp [needs, neededCalls])

/-! ## Operators -/

/-- An operator of a level and its right operand are one round of the loop. -/
theorem leadsAt_binary {op : BinaryOp} {column : Nat} (hop : op.level? = some level)
    (hleft : left.LeadsAt level) (hright : right.ReadAt (level + 1)) :
    (binary column op left right).LeadsAt level := by
  intro depth n ts rest tail fits R hts hrest hloop
  have hlevel : level < 5 := BinaryOp.level?_lt hop
  have hrank : op.rank = level := by simp [BinaryOp.rank, hop]
  obtain ⟨ls, us, rfl, hls, hus⟩ := List.map_eq_append_iff.mp (hts.trans (within_binary hop))
  obtain ⟨t, rs, rfl, ht, hrs⟩ := List.map_eq_cons_iff.mp hus
  rw [List.append_assoc]
  refine (hleft depth n ls (t :: (rs ++ rest)) tail (right.needs (level + 1) ≤ depth ∧ fits) R hls
    (stops_operator ht (by omega)) fun left' k hleft' hk => ?_).congr ?_
  · obtain ⟨k, rfl⟩ : ∃ j, k = j + 1 := Nat.exists_eq_succ_of_ne_zero fun h => by simp [h] at hk
    have haccept : operatorAt? level t = some (op, t.column) := by
      unfold operatorAt?
      rw [binaryOp?_of_tokenKind ht]
      exact if_pos hop
    have hread := hright depth n rs rest hrs hrest
    rw [reader_of_le (by omega)] at hread
    refine Comes.after (run_accept_of_some haccept) (hread.bind fun right' hright' => ?_)
    have hlength : rs.length + rest.length ≤ k := by simpa using hk
    refine hloop _ k ?_ (le_of_add_le_right hlength)
    rw [plain, plain, hleft', hright']
  · rw [needs_binary hop, max_le_iff, and_assoc]
    exact and_congr_right fun _ => and_congr_left fun _ => by omega

/-- The right operand of a power may have an operator in front. -/
theorem readAt_power {column : Nat} (hleft : left.ReadAt 8) (hright : right.ReadAt 6) :
    (binary column (.arithmetic .pow) left right).ReadAt 7 := by
  refine readAt_of_succ (by decide) fun depth n ts rest hts hrest => ?_
  obtain ⟨ls, us, rfl, hls, hus⟩ := List.map_eq_append_iff.mp (hts.trans within_power)
  obtain ⟨t, rs, rfl, ht, hrs⟩ := List.map_eq_cons_iff.mp hus
  change Comes _ _ _ (powered (depth + 1) n (ls ++ t :: rs ++ rest))
  rw [powered, List.append_assoc]
  have hbase := hleft depth n ls (t :: (rs ++ rest)) hls (stops_operator ht (by decide))
  have hpower := hright depth n rs rest hrs hrest.of_power
  have hsign : powerSign? t = some t.column := by
    unfold powerSign?
    rw [ht]
    rfl
  refine (hbase.bind fun base hbase =>
    .after (run_accept_of_some hsign) (hpower.finish fun power hpower => ⟨_, rfl, ?_⟩)).congr ?_
  · rw [plain, plain, hbase, hpower]
  · rw [needs_power]
    omega

theorem readAt_unary {op : UnaryOp} {column : Nat} (h : e.ReadAt 6) :
    (unary column op e).ReadAt 6 := by
  refine readAt_rank fun depth n ts rest hts hrest => ?_
  rw [written] at hts
  obtain ⟨t, us, rfl, ht, hus⟩ := List.map_eq_cons_iff.mp hts
  change Comes _ _ _ (prefixed (depth + 1) n (t :: (us ++ rest)))
  rw [prefixed]
  refine Comes.after (run_accept_of_some (unaryOp?_of_tokenKind ht)) ?_
  refine ((h depth n us rest hus hrest).finish fun e' he' => ⟨_, rfl, ?_⟩).congr ?_
  · rw [plain, plain, he']
  · rw [height, needs]
    omega

/-! ## Operands -/

theorem readAt_literal (column : Nat) (v : Value) : (literal column v).ReadAt 8 := by
  refine readAt_rank fun depth n ts rest hts _ => ?_
  rw [written] at hts
  obtain ⟨t, us, rfl, ht, hus⟩ := List.map_eq_cons_iff.mp hts
  obtain rfl := List.map_eq_nil_iff.mp hus
  change Comes _ _ _ (primary (depth + 1) n (t :: rest))
  rw [run_primary_literal ht]
  refine .ok ?_ rfl
  rw [height]
  omega

theorem readAt_variable (column : Nat) (name : String) : (Expr.variable column name).ReadAt 8 := by
  refine readAt_rank fun depth n ts rest hts hrest => ?_
  rw [written] at hts
  obtain ⟨t, us, rfl, ht, hus⟩ := List.map_eq_cons_iff.mp hts
  obtain rfl := List.map_eq_nil_iff.mp hus
  change Comes _ _ _ (primary (depth + 1) n (t :: rest))
  rw [run_primary_name ht]
  have htarget : Comes (1 ≤ depth) (· = .scalar t.column name) rest
      (target depth n (t :: rest)) := by
    cases depth with
    | zero =>
      rw [target]
      exact .tooDeep (by omega)
    | succ depth =>
      rw [target]
      refine Comes.after (run_expect_of_some (name?_of_tokenKind ht))
        (Comes.after hrest.run_accepts_opening ?_)
      exact .ok (by omega) rfl
  refine (htarget.finish fun x hx => ⟨_, rfl, ?_⟩).congr (by rw [height]; omega)
  rw [hx]
  rfl

/-! ## Lists -/

theorem stops_items {c : Token} {vs : List Token}
    (hvs : vs.map Token.kind = (writtenEach es).flatMap (.comma :: ·)) (hc : c.kind = .closing) :
    Stops 0 (vs ++ c :: rest) := by
  cases es with
  | nil =>
    obtain rfl := List.map_eq_nil_iff.mp hvs
    exact stops_closing hc
  | cons e es =>
    obtain ⟨t, us, rfl, ht, -⟩ := List.map_eq_cons_iff.mp hvs
    exact stops_comma ht

/-- The items behind the first, up to the closing parenthesis. -/
theorem comes_commaTail (h : ∀ e ∈ es, e.ReadAt 0) {c : Token} (hc : c.kind = .closing) {k : Nat}
    (hk : ts.length ≤ k) (hts : ts.map Token.kind = (writtenEach es).flatMap (.comma :: ·)) :
    Comes (heightOfEach es ≤ depth) (fun es' => es'.map Expr.plain = es.map Expr.plain) (c :: rest)
      (commaTail (expressionAt depth 0) k n (ts ++ c :: rest)) := by
  -- the bound on the items' number is never reached, as every item takes a token
  induction es generalizing ts k with
  | nil =>
    obtain rfl := List.map_eq_nil_iff.mp hts
    have hcomma : ∀ t ∈ (c :: rest).head?, isComma t = none := by
      rintro _ ⟨⟩
      exact isComma_eq_none (by simp [hc])
    have hfits : heightOfEach [] ≤ depth := Nat.zero_le depth
    cases k with
    | zero => exact .ok hfits rfl
    | succ k => exact .after (run_accepts_of_none hcomma) (.ok hfits rfl)
  | cons e es ih =>
    obtain ⟨he, hes⟩ := List.forall_mem_cons.mp h
    rw [writtenEach, List.flatMap_cons] at hts
    obtain ⟨t, us, rfl, ht, hus⟩ := List.map_eq_cons_iff.mp hts
    obtain ⟨us, vs, rfl, hus, hvs⟩ := List.map_eq_append_iff.mp hus
    obtain ⟨k, rfl⟩ : ∃ j, k = j + 1 := Nat.exists_eq_succ_of_ne_zero fun h => by simp [h] at hk
    have hread := he depth n us (vs ++ c :: rest) (hus.trans (within_of_le (Nat.zero_le _)).symm)
      (stops_items hvs hc)
    have hlength : us.length + vs.length ≤ k := by simpa using hk
    have htail := ih hes (le_of_add_le_right hlength) hvs
    change Comes _ _ _ (commaTail (expressionAt depth 0) (k + 1) n (t :: (us ++ vs ++ c :: rest)))
    rw [List.append_assoc]
    refine Comes.after (run_accepts_of_some (isComma_eq_some ht)) ?_
    refine (hread.bind fun e' he' => htail.finish fun es' hes' => ⟨_, rfl, ?_⟩).congr ?_
    · rw [List.map_cons, List.map_cons, he', hes']
    · rw [heightOfEach, max_le_iff, needs]

theorem comes_commaList (h : ∀ e ∈ es, e.ReadAt 0) (hes : es ≠ []) {c : Token}
    (hc : c.kind = .closing) (hts : ts.map Token.kind = commaSeparated (writtenEach es)) :
    Comes (heightOfEach es ≤ depth) (fun es' => es'.map Expr.plain = es.map Expr.plain) (c :: rest)
      (commaList (expressionAt depth 0) n (ts ++ c :: rest)) := by
  obtain ⟨e, es, rfl⟩ := List.exists_cons_of_ne_nil hes
  obtain ⟨he, hes⟩ := List.forall_mem_cons.mp h
  obtain ⟨us, vs, rfl, hus, hvs⟩ := List.map_eq_append_iff.mp hts
  have hread := he depth n us (vs ++ c :: rest) (hus.trans (within_of_le (Nat.zero_le _)).symm)
    (stops_items hvs hc)
  have hget : (get : Parser (List Token)) n (vs ++ c :: rest) =
      .ok (vs ++ c :: rest, vs ++ c :: rest) := rfl
  have htail : Comes (heightOfEach es ≤ depth) (fun es' => es'.map Expr.plain = es.map Expr.plain)
    (c :: rest)
      (commaTail (expressionAt depth 0) (vs ++ c :: rest).length n (vs ++ c :: rest)) :=
    comes_commaTail hes hc (by simp) hvs
  rw [List.append_assoc]
  refine (hread.bind fun e' he' => .after hget (htail.finish fun es' hes' => ⟨_, rfl, ?_⟩)).congr ?_
  · rw [List.map_cons, List.map_cons, he', hes']
  · rw [heightOfEach, max_le_iff, needs]

/-- The opening parenthesis has been taken. -/
theorem comes_arguments (h : ∀ e ∈ es, e.ReadAt 0) (hes : es ≠ []) {c : Token}
    (hc : c.kind = .closing) (hts : ts.map Token.kind = commaSeparated (writtenEach es)) :
    Comes (1 + heightOfEach es ≤ depth) (fun es' => es'.map Expr.plain = es.map Expr.plain) rest
      (arguments depth n (ts ++ c :: rest)) := by
  cases depth with
  | zero =>
    rw [arguments]
    exact .tooDeep (by omega)
  | succ depth =>
    rw [arguments]
    refine ((comes_commaList h hes hc hts).finish fun es' hes' => ⟨es', ?_, hes'⟩).congr (by omega)
    exact run_bind_of_ok (run_discard_closing hc)

theorem readAt_element {column : Nat} {name : String} (h : ∀ e ∈ es, e.ReadAt 0) (hes : es ≠ []) :
    (element column name es).ReadAt 8 := by
  refine readAt_rank fun depth n ts rest hts _ => ?_
  rw [written] at hts
  obtain ⟨t, us, rfl, ht, hus⟩ := List.map_eq_cons_iff.mp hts
  obtain ⟨o, us, c, rfl, ho, hus, hc⟩ := exists_of_enclosed hus
  change Comes _ _ _ (primary (depth + 1) n (t :: o :: (us ++ [c] ++ rest)))
  rw [run_primary_name ht, List.append_assoc]
  have htarget : Comes (2 + heightOfEach es ≤ depth)
    (fun x : Target => x.plain = .element 0 name (es.map plain)) rest
      (target depth n (t :: o :: (us ++ c :: rest))) := by
    cases depth with
    | zero =>
      rw [target]
      exact .tooDeep (by omega)
    | succ depth =>
      rw [target]
      refine Comes.after (run_expect_of_some (name?_of_tokenKind ht))
        (.after (run_accepts_of_some (isOpening_eq_some ho)) ?_)
      refine ((comes_arguments h hes hc hus).finish fun es' hes' => ⟨_, rfl, ?_⟩).congr (by omega)
      rw [Target.plain, hes']
  refine (htarget.finish fun x hx => ⟨_, rfl, ?_⟩).congr ?_
  · rw [Target.plain_toExpr, hx, Target.toExpr, plain, plainList_eq_map]
  · rw [height]
    omega

/-! ## Calls -/

/-- The arguments of a call are read up to the closing parenthesis; if there are none, nothing is
taken. -/
theorem comes_call (h : ∀ e ∈ es, e.ReadAt 0) (hrest : Stops 8 rest)
    (hts : ts.map Token.kind = callTokens (writtenEach es)) {opened : Parser Expr}
    {call : List Expr → Parser Expr} {R : Expr → Prop}
    (hopened : ∀ us c, us.map Token.kind = commaSeparated (writtenEach es) → es ≠ [] →
      opened n (us ++ c :: rest) = (arguments depth >>= call) n (us ++ c :: rest))
    (hcall : ∀ es', es'.map Expr.plain = es.map Expr.plain →
      ∃ e, call es' n rest = .ok (e, rest) ∧ R e) :
    Comes ((if es.isEmpty then 1 else 2 + heightOfEach es) ≤ depth + 1) R rest
      ((do if ← accepts isOpening then opened else call []) n (ts ++ rest)) := by
  cases es with
  | nil =>
    obtain rfl := List.map_eq_nil_iff.mp hts
    obtain ⟨e, hrun, he⟩ := hcall [] rfl
    refine .after hrest.run_accepts_opening ?_
    change Comes _ _ _ (call [] n rest)
    rw [hrun]
    exact .ok (by simp) he
  | cons e es =>
    obtain ⟨o, us, c, rfl, ho, hus, hc⟩ := exists_of_enclosed hts
    have hargs : Comes (1 + heightOfEach (e :: es) ≤ depth)
        (fun es' => es'.map Expr.plain = (e :: es).map Expr.plain) rest
            (arguments depth n (us ++ c :: rest)) :=
      comes_arguments h (List.cons_ne_nil e es) hc hus
    change Comes _ _ _
      ((do if ← accepts isOpening then opened else call []) n (o :: (us ++ [c] ++ rest)))
    rw [List.append_assoc]
    refine .after (run_accepts_of_some (isOpening_eq_some ho)) ?_
    change Comes _ _ _ (opened n (us ++ c :: rest))
    rw [hopened us c hus (List.cons_ne_nil e es)]
    refine (hargs.finish hcall).congr ?_
    simp only [List.isEmpty_cons, Bool.false_eq_true, if_false]
    omega

theorem readAt_call {column : Nat} {f : Builtin} (h : ∀ e ∈ es, e.ReadAt 0)
    (hes : f.accepts es.length = true) :
    (call column f es).ReadAt 8 := by
  refine readAt_rank fun depth n ts rest hts hrest => ?_
  rw [written] at hts
  obtain ⟨t, us, rfl, ht, hus⟩ := List.map_eq_cons_iff.mp hts
  change Comes _ _ _ (primary (depth + 1) n (t :: (us ++ rest)))
  rw [run_primary_builtin ht, height]
  refine comes_call h hrest hus (fun vs c hvs hne => ?_) fun es' hes' =>
    ⟨.call t.column f es', ?_, ?_⟩
  · -- the first argument does not begin with a closing parenthesis
    obtain ⟨e, es, rfl⟩ := List.exists_cons_of_ne_nil hne
    obtain ⟨k, ks, hbegin, hclosing, -⟩ :=
      e.beginsWell_written.append ((writtenEach es).flatMap (.comma :: ·))
    obtain ⟨u, vs, rfl, hu, -⟩ := List.map_eq_cons_iff.mp (hvs.trans hbegin)
    refine run_bind_of_ok (run_accepts_of_none ?_)
    rintro _ ⟨⟩
    exact isClosing_eq_none (hu ▸ hclosing)
  · have hlength : es'.length = es.length := by simpa using congrArg List.length hes'
    unfold builtinCall
    rw [hlength, if_pos hes]
    rfl
  · rw [plain, plain, plainList_eq_map, plainList_eq_map, hes']

theorem readAt_userCall {column : Nat} {name : String} (h : ∀ e ∈ es, e.ReadAt 0)
    (hname : name ≠ "" ∨ es ≠ []) :
    (userCall column name es).ReadAt 8 := by
  refine readAt_rank fun depth n ts rest hts hrest => ?_
  rw [written] at hts
  obtain ⟨t, us, rfl, ht, hus⟩ := List.map_eq_cons_iff.mp hts
  change Comes _ _ _ (primary (depth + 1) n (t :: (us ++ rest)))
  rw [run_primary_FN ht, height]
  have hcall : ∀ vs : List Token, vs.map Token.kind = callTokens (writtenEach es) →
      Comes ((if es.isEmpty then 1 else 2 + heightOfEach es) ≤ depth + 1)
        (fun e' => e'.plain = (userCall column name es).plain) rest
        ((do
          if ← accepts isOpening then arguments depth >>= fun es =>
          return .userCall t.column name es
          else return .userCall t.column name [] : Parser Expr) n (vs ++ rest)) := by
    intro vs hvs
    refine comes_call h hrest hvs (fun _ _ _ _ => rfl) fun es' hes' =>
      ⟨.userCall t.column name es', rfl, ?_⟩
    rw [plain, plain, plainList_eq_map, plainList_eq_map, hes']
  by_cases hempty : name = ""
  · -- the opening parenthesis stands in the name's place
    rw [functionTokens, if_pos hempty, List.nil_append] at hus
    obtain ⟨e, es, rfl⟩ := List.exists_cons_of_ne_nil (hname.resolve_left (not_not.mpr hempty))
    obtain ⟨o, vs, c, rfl, ho, -⟩ := exists_of_enclosed hus
    subst hempty
    exact .after (run_functionName_opening ho) (hcall _ hus)
  · rw [functionTokens, if_neg hempty] at hus
    obtain ⟨u, vs, rfl, hu, hvs⟩ := List.map_eq_cons_iff.mp hus
    exact .after (run_functionName_name hu) (hcall vs hvs)

/-! ## Every expression -/

theorem readAt_each (ih : ∀ e ∈ es, e.Proper → e.IsReadBack) (h : ProperEach es) :
    ∀ e ∈ es, e.ReadAt 0 := by
  intro e hmem
  exact (ih e hmem (properEach_iff.mp h e hmem)).readAt 0 (Nat.zero_le 8)

/-- **Every expression that can be written is read back**, where any rank is wanted. -/
theorem isReadBack (he : e.Proper) : e.IsReadBack := by
  induction e using Expr.structural with
  | literal column v => exact isReadBack_of_own (by simp [Expr.rank]) (readAt_literal column v)
  | scalar column name =>
    exact isReadBack_of_own (by simp [Expr.rank]) (readAt_variable column name)
  | element column name indices ih =>
    obtain ⟨hne, heach⟩ := he
    exact isReadBack_of_own (by simp [Expr.rank]) (readAt_element (readAt_each ih heach) hne)
  | unary column op e ih =>
    exact isReadBack_of_own (by simp [Expr.rank]) (readAt_unary ((ih he).readAt 6 (by decide)))
  | binary column op left right ihleft ihright =>
    have hleft := ihleft he.1
    have hright := ihright he.2
    cases hop : op.level? with
    | none =>
      obtain rfl := BinaryOp.eq_pow hop
      have hrank : 5 ≤ (binary column (.arithmetic .pow) left right).rank := by
        simp [Expr.rank, BinaryOp.rank, hop]
      exact isReadBack_of_own hrank
        (readAt_power (hleft.readAt 8 le_rfl) (hright.readAt 6 (by decide)))
    | some level =>
      have hlevel : level < 5 := BinaryOp.level?_lt hop
      have hrank : (binary column op left right).rank = level := by
        simp [Expr.rank, BinaryOp.rank, hop]
      refine isReadBack_of_leadsAt (hrank ▸ hlevel) (hrank ▸ ?_)
      exact leadsAt_binary hop (hleft.leadsAt level hlevel) (hright.readAt (level + 1) (by omega))
  | call column f args ih =>
    obtain ⟨haccepts, heach⟩ := he
    exact isReadBack_of_own (by simp [Expr.rank]) (readAt_call (readAt_each ih heach) haccepts)
  | userCall column name args ih =>
    obtain ⟨hname, heach⟩ := he
    exact isReadBack_of_own (by simp [Expr.rank]) (readAt_userCall (readAt_each ih heach) hname)

end Expr

end LineBasic
