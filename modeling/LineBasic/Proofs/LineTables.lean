import Mathlib
import LineBasic.Program.LineTable
import LineBasic.Proofs.ProgramMap
import LineBasic.Proofs.Tables

/-!
# The lines of a program are kept in step

The numbers of the lines are kept in a list, the lines in a table, and the DATA items in a cache.
Whatever is done, the three stay in step, and all that is asked is answered from the map that the
table is.

* `halve_eq`: searching by halving finds where a test switches; `lt_bisectLeft_iff`,
  `lt_bisectRight_iff`: which numbers lie before the place that is found.
* `LineTable.InStep`: the list, the table and the cache fit each other. `LineTable.view`: the
  program that they are.
* `LineTable.refines_call`: what is done to the table is done to the program, and keeps it in step.
* `LineTable.Refines`: all questions are answered from a map. `LineTable.refines_after`: the main
  result.
-/

namespace LineBasic

/-! ## Searching by halving -/

/-- **Halving finds where a test switches.** Before `low` all pass and from `high` on none does, and
each step brings the two together. -/
theorem halve_eq {passed : Nat → Bool} {k : Nat} (hpassed : ∀ i, passed i = true ↔ i < k)
    {steps low high : Nat} (hlow : low ≤ k) (hhigh : k ≤ high) (hsteps : high - low ≤ steps) :
    halve passed steps low high = k := by
  induction steps generalizing low high with
  | zero => simp only [halve]; omega
  | succ steps ih =>
    unfold halve
    split
    · rename_i hlt
      by_cases hmiddle : passed ((low + high) / 2) = true
      · simp only [if_pos hmiddle]
        have hbefore := (hpassed _).mp hmiddle
        exact ih (by omega) hhigh (by omega)
      · simp only [if_neg hmiddle]
        have hbehind := mt (hpassed _).mpr hmiddle
        exact ih hlow (by omega) (by omega)
    · omega

section

variable {numbers : List Nat}

/-- In ascending numbers, a test that lesser numbers pass too switches once. -/
theorem exists_switch {test : Nat → Bool} (htest : ∀ a b, a < b → test b = true → test a = true)
    (h : numbers.Pairwise (· < ·)) :
    ∃ k ≤ numbers.length, ∀ i, numbers[i]?.any test = true ↔ i < k := by
  induction numbers with
  | nil => exact ⟨0, le_refl _, by simp⟩
  | cons n numbers ih =>
    obtain ⟨hfirst, hrest⟩ := List.pairwise_cons.mp h
    by_cases hn : test n = true
    · obtain ⟨k, hk, hswitch⟩ := ih hrest
      refine ⟨k + 1, by simpa using hk, fun i => ?_⟩
      cases i with
      | zero => simp [hn]
      | succ i => simpa using hswitch i
    · refine ⟨0, Nat.zero_le _, fun i => ?_⟩
      cases i with
      | zero => simp [hn]
      | succ i =>
        simp only [List.getElem?_cons_succ, Option.any_eq_true, Nat.not_lt_zero, iff_false,
          not_exists, not_and]
        exact fun m hm hpass => hn (htest n m (hfirst m (List.mem_of_getElem? hm)) hpass)

/-- The place that is found by halving lies behind exactly the numbers that pass. -/
theorem lt_halve_iff {test : Nat → Bool} (htest : ∀ a b, a < b → test b = true → test a = true)
    (h : numbers.Pairwise (· < ·)) (i : Nat) :
    i < halve (fun i => numbers[i]?.any test) numbers.length 0 numbers.length ↔
      ∃ m, numbers[i]? = some m ∧ test m = true := by
  obtain ⟨k, hk, hswitch⟩ := exists_switch htest h
  rw [halve_eq hswitch (Nat.zero_le _) hk (Nat.sub_le _ _), ← hswitch i, Option.any_eq_true]

theorem lt_bisectLeft_iff (h : numbers.Pairwise (· < ·)) (n i : Nat) :
    i < bisectLeft numbers n ↔ ∃ m, numbers[i]? = some m ∧ m < n := by
  refine (@lt_halve_iff numbers (· < n) ?_ h i).trans (by simp)
  exact fun a b hab hb => decide_eq_true (hab.trans (of_decide_eq_true hb))

theorem lt_bisectRight_iff (h : numbers.Pairwise (· < ·)) (n i : Nat) :
    i < bisectRight numbers n ↔ ∃ m, numbers[i]? = some m ∧ m ≤ n := by
  refine (@lt_halve_iff numbers (· ≤ n) ?_ h i).trans (by simp)
  exact fun a b hab hb => decide_eq_true (hab.le.trans (of_decide_eq_true hb))

/-- A number that is there is found. -/
theorem getElem?_bisectLeft (h : numbers.Pairwise (· < ·)) {n : Nat} (hn : n ∈ numbers) :
    numbers[bisectLeft numbers n]? = some n := by
  obtain ⟨j, hj⟩ := List.mem_iff_getElem?.mp hn
  have hnot : ¬ j < bisectLeft numbers n := by
    rw [lt_bisectLeft_iff h, hj]
    rintro ⟨m, hm, hlt⟩
    exact absurd (Option.some.inj hm) (by omega)
  rcases (Nat.not_lt.mp hnot).eq_or_lt with rfl | hlt
  · exact hj
  · -- a number between the place and its own would be less, and so before the place
    have hlength : bisectLeft numbers n < numbers.length :=
      hlt.trans (List.getElem?_eq_some_iff.mp hj).1
    have hless : numbers[bisectLeft numbers n] < n := by
      obtain ⟨hjlength, rfl⟩ := List.getElem?_eq_some_iff.mp hj
      exact List.pairwise_iff_getElem.mp h _ _ hlength hjlength hlt
    have hself := (lt_bisectLeft_iff h n (bisectLeft numbers n)).mpr
      ⟨_, List.getElem?_eq_getElem hlength, hless⟩
    omega

theorem mem_insort (numbers : List Nat) (n k : Nat) :
    k ∈ insort numbers n ↔ k = n ∨ k ∈ numbers := by
  conv_rhs => rw [← List.take_append_drop (bisectRight numbers n) numbers]
  simp only [insort, List.mem_append, List.mem_cons]
  tauto

/-- A new number is put in its place. -/
theorem pairwise_insort (h : numbers.Pairwise (· < ·)) {n : Nat} (hn : n ∉ numbers) :
    (insort numbers n).Pairwise (· < ·) := by
  have hfront : ∀ m ∈ numbers.take (bisectRight numbers n), m < n := by
    intro m hm
    obtain ⟨i, hi, hmi⟩ := List.mem_take_iff_getElem.mp hm
    obtain ⟨m', hm', hle⟩ := (lt_bisectRight_iff h n i).mp (by omega)
    rw [List.getElem?_eq_getElem (by omega), hmi] at hm'
    obtain rfl := Option.some.inj hm'
    exact lt_of_le_of_ne hle fun heq => hn (heq ▸ List.mem_of_mem_take hm)
  have hback : ∀ m ∈ numbers.drop (bisectRight numbers n), n < m := by
    intro m hm
    obtain ⟨i, hi, rfl⟩ := List.mem_drop_iff_getElem.mp hm
    by_contra hle
    have hlt := (lt_bisectRight_iff h n (bisectRight numbers n + i)).mpr
      ⟨_, List.getElem?_eq_getElem (by omega), Nat.not_lt.mp hle⟩
    omega
  rw [insort, List.pairwise_append]
  refine ⟨h.sublist (List.take_sublist _ _),
    List.pairwise_cons.mpr ⟨hback, h.sublist (List.drop_sublist _ _)⟩, fun a ha b hb => ?_⟩
  rcases List.mem_cons.mp hb with rfl | hb
  · exact hfront a ha
  · exact (hfront a ha).trans (hback b hb)

/-- The number that is found is the only one that goes. -/
theorem mem_eraseIdx_bisectLeft (h : numbers.Pairwise (· < ·)) {n : Nat} (hn : n ∈ numbers)
    (k : Nat) : k ∈ numbers.eraseIdx (bisectLeft numbers n) ↔ k ≠ n ∧ k ∈ numbers := by
  have hfound := getElem?_bisectLeft h hn
  have hnodup : numbers.Nodup := h.imp Nat.ne_of_lt
  rw [List.mem_eraseIdx_iff_getElem?]
  constructor
  · rintro ⟨i, hi, hk⟩
    refine ⟨?_, List.mem_of_getElem? hk⟩
    rintro rfl
    exact hi ((List.getElem?_inj (List.getElem?_eq_some_iff.mp hk).1 hnodup).mp
      (hk.trans hfound.symm))
  · rintro ⟨hne, hk⟩
    obtain ⟨i, hi⟩ := List.mem_iff_getElem?.mp hk
    refine ⟨i, ?_, hi⟩
    rintro rfl
    exact hne (Option.some.inj (hi.symm.trans hfound))

end

namespace LineTable

open LineBasic.Program (Content Edit Call renumberLines loadFrom plannedMoves inRange)

variable {t : LineTable}

/-! ## The list, the table and the cache -/

/-- The list of numbers, the table and the cache are in step: the numbers ascend and are the keys of
the table, a line has the number under which it stands and the code of its statements, and DATA
items that are kept are those of the lines. -/
structure InStep (t : LineTable) : Prop where
  ascending : t.numbers.Pairwise (· < ·)
  keys : ∀ n, n ∈ t.numbers ↔ (t.lines.get? n).isSome
  lines : ∀ n l, t.lines.get? n = some l → l.number = n ∧ l.Coded
  items : ∀ items, t.items = some items → items = t.inOrder.flatMap ProgramLine.dataItems

/-- The program that a table of lines is. -/
def view (t : LineTable) : Program := ⟨t.inOrder⟩

/-- What stands under each number. -/
def content (t : LineTable) : Content :=
  fun n => (t.lines.get? n).map fun l => (l.source, l.statements)

theorem inStep_empty : InStep {} := ⟨.nil, by simp [Table.get?, Table.find?], nofun, nofun⟩

theorem InStep.exists_line (h : t.InStep) {n : Nat} (hn : n ∈ t.numbers) :
    ∃ l, t.lines.get? n = some l ∧ l.number = n := by
  obtain ⟨l, hl⟩ := Option.isSome_iff_exists.mp ((h.keys n).mp hn)
  exact ⟨l, hl, (h.lines n l hl).1⟩

theorem InStep.mem_inOrder_iff (h : t.InStep) (l : ProgramLine) :
    l ∈ t.inOrder ↔ t.lines.get? l.number = some l := by
  rw [inOrder, List.mem_filterMap]
  constructor
  · rintro ⟨n, -, hl⟩
    rwa [(h.lines n l hl).1]
  · exact fun hl => ⟨l.number, (h.keys _).mpr (by simp [hl]), hl⟩

/-- The lines in order have the numbers of the list. -/
theorem InStep.numbers_view (h : t.InStep) : t.view.numbers = t.numbers := by
  have hall : ∀ ns : List Nat, (∀ n ∈ ns, n ∈ t.numbers) →
      (ns.filterMap t.lines.get?).map ProgramLine.number = ns := by
    intro ns hns
    induction ns with
    | nil => rfl
    | cons n ns ih =>
      obtain ⟨l, hl, hnumber⟩ := h.exists_line (hns n List.mem_cons_self)
      rw [List.filterMap_cons_some hl, List.map_cons, hnumber,
        ih fun m hm => hns m (List.mem_cons_of_mem n hm)]
  exact hall t.numbers fun _ hn => hn

theorem InStep.orderly (h : t.InStep) : t.view.Orderly ProgramLine.Coded := by
  have hascending := h.ascending
  rw [← h.numbers_view] at hascending
  refine ⟨List.pairwise_map.mp hascending, fun l hl => ?_⟩
  exact (h.lines _ _ ((h.mem_inOrder_iff l).mp hl)).2

/-- **A line is found in the table where the program has it.** -/
theorem InStep.line?_view (h : t.InStep) (n : Nat) : t.view.line? n = t.lines.get? n := by
  cases hget : t.lines.get? n with
  | some l =>
    obtain rfl := (h.lines n l hget).1
    exact h.orderly.line?_of_mem ((h.mem_inOrder_iff l).mpr hget)
  | none =>
    refine List.find?_eq_none.mpr fun l hl => ?_
    rw [decide_eq_true_eq]
    rintro rfl
    rw [(h.mem_inOrder_iff l).mp hl] at hget
    cases hget

theorem InStep.content_view (h : t.InStep) : t.view.content = t.content := by
  funext n
  rw [Program.content, h.line?_view, content]

/-- A table in step is a program if its map is that of the program. -/
theorem InStep.view_eq (h : t.InStep) {p : Program} (hp : p.Orderly ProgramLine.Coded)
    (hcontent : ∀ n, t.content n = p.content n) : t.view = p :=
  Program.eq_of_content h.orderly hp (h.content_view.trans (funext hcontent))

/-! ## Lines go and come -/

theorem get?_delete (t : LineTable) (n k : Nat) :
    (t.delete n).2.lines.get? k = if k = n then none else t.lines.get? k := by
  unfold delete
  split
  · exact Table.get?_erase t.lines n k
  · rename_i hnone
    split
    · rename_i hk
      simpa [Table.contains, hk] using hnone
    · rfl

theorem inStep_delete (h : t.InStep) (n : Nat) : (t.delete n).2.InStep := by
  have hget := get?_delete t n
  unfold delete at hget ⊢
  by_cases hcontains : t.lines.contains n = true
  · rw [if_pos hcontains] at hget ⊢
    refine ⟨h.ascending.sublist (List.eraseIdx_sublist _ _), fun k => ?_, fun k l hl => ?_, nofun⟩
    · rw [hget, mem_eraseIdx_bisectLeft h.ascending ((h.keys n).mpr hcontains), h.keys]
      by_cases hk : k = n <;> simp [hk]
    · rw [hget] at hl
      split at hl
      · cases hl
      · exact h.lines k l hl
  · rwa [if_neg hcontains]

theorem get?_store (t : LineTable) (n k : Nat) (source : String) (statements : List Statement) :
    (t.store n source statements).lines.get? k =
      if k = n then if statements.isEmpty then none else some (.new n source statements)
      else t.lines.get? k := by
  unfold store insert
  cases hempty : statements.isEmpty with
  | true => simpa using get?_delete t n k
  | false =>
    simp only [Bool.false_eq_true, if_false]
    exact Table.find?_put n k _ _

theorem inStep_store (h : t.InStep) (n : Nat) (source : String) (statements : List Statement) :
    (t.store n source statements).InStep := by
  have hget := fun k => get?_store t n k source statements
  unfold store insert at hget ⊢
  by_cases hempty : statements.isEmpty = true
  · rw [if_pos hempty]
    exact inStep_delete h n
  · have hne : statements ≠ [] := by simpa using hempty
    simp only [if_neg hempty] at hget ⊢
    refine ⟨?_, fun k => ?_, fun k l hl => ?_, nofun⟩
    · by_cases hcontains : t.lines.contains n = true
      · rw [if_pos hcontains]
        exact h.ascending
      · rw [if_neg hcontains]
        exact pairwise_insort h.ascending fun hn => hcontains ((h.keys n).mp hn)
    · have hmem : k ∈ (if t.lines.contains n then t.numbers else insort t.numbers n) ↔
          k = n ∨ k ∈ t.numbers := by
        split
        · rename_i hcontains
          exact ⟨.inr, fun hk => hk.elim (fun heq => heq ▸ (h.keys n).mpr hcontains) id⟩
        · exact mem_insort t.numbers n k
      rw [hmem, hget, h.keys]
      by_cases hk : k = n <;> simp [hk]
    · rw [hget] at hl
      split at hl
      · rename_i hk
        obtain rfl := Option.some.inj hl
        exact ⟨hk.symm, hne, rfl⟩
      · exact h.lines k l hl

theorem view_delete (h : t.InStep) (n : Nat) : (t.delete n).2.view = t.view.erase n := by
  refine (inStep_delete h n).view_eq (h.orderly.filter _) fun k => ?_
  rw [Program.content_erase, h.content_view, content, get?_delete, content]
  by_cases hk : k = n
  · simp [hk]
  · simp [hk, Ne.symm hk]

theorem view_store (h : t.InStep) (n : Nat) (source : String) (statements : List Statement) :
    (t.store n source statements).view = t.view.store n source statements := by
  refine (inStep_store h n source statements).view_eq (h.orderly.store fun hne => ⟨hne, rfl⟩)
    fun k => ?_
  rw [Program.content_store, h.content_view, content, get?_store, content, Program.puts,
    Program.held]
  by_cases hk : k = n
  · subst hk
    cases statements.isEmpty <;> simp [ProgramLine.new]
  · simp [hk, Ne.symm hk]

/-! ## Ranges -/

/-- **The numbers between the two places are those in the range.** -/
theorem mem_numbersIn_iff (h : t.InStep) (first last : Option Nat) (n : Nat) :
    n ∈ t.numbersIn first last ↔ n ∈ t.numbers ∧ inRange first last n = true := by
  have hlow : ∀ i, t.numbers[i]? = some n →
      (first.elim 0 (bisectLeft t.numbers) ≤ i ↔ ∀ a ∈ first, a ≤ n) := by
    intro i hi
    cases first with
    | none => simp
    | some a =>
      have hbefore := lt_bisectLeft_iff h.ascending a i
      simp only [hi, Option.some.injEq, exists_eq_left'] at hbefore
      simpa using not_congr hbefore
  have hhigh : ∀ i, t.numbers[i]? = some n →
      (i < last.elim t.numbers.length (bisectRight t.numbers) ↔ ∀ b ∈ last, n ≤ b) := by
    intro i hi
    cases last with
    | none => simpa using (List.getElem?_eq_some_iff.mp hi).1
    | some b =>
      have hbefore := lt_bisectRight_iff h.ascending b i
      simp only [hi, Option.some.injEq, exists_eq_left'] at hbefore
      simpa using hbefore
  rw [Program.inRange_iff, numbersIn, List.mem_iff_getElem?]
  simp only [List.getElem?_drop, List.getElem?_take]
  constructor
  · rintro ⟨i, hi⟩
    split at hi
    · rename_i hlt
      exact ⟨List.mem_of_getElem? hi, (hlow _ hi).mp (Nat.le_add_right _ _), (hhigh _ hi).mp hlt⟩
    · cases hi
  · rintro ⟨hn, hfirst, hlast⟩
    obtain ⟨i, hi⟩ := List.mem_iff_getElem?.mp hn
    have hle := (hlow i hi).mpr hfirst
    refine ⟨i - first.elim 0 (bisectLeft t.numbers), ?_⟩
    rw [Nat.add_sub_cancel' hle, if_pos ((hhigh i hi).mpr hlast)]
    exact hi

/-- The list of a range has the numbers in it. -/
theorem map_fst_list (h : t.InStep) (first last : Option Nat) :
    (t.list first last).map Prod.fst = t.numbersIn first last := by
  have hall : ∀ ns : List Nat, (∀ n ∈ ns, n ∈ t.numbers) →
      (ns.filterMap fun n => (t.lines.get? n).map fun l => (n, l.source)).map Prod.fst = ns := by
    intro ns hns
    induction ns with
    | nil => rfl
    | cons n ns ih =>
      obtain ⟨l, hl, -⟩ := h.exists_line (hns n List.mem_cons_self)
      rw [List.filterMap_cons_some (by rw [hl, Option.map_some]), List.map_cons,
        ih fun m hm => hns m (List.mem_cons_of_mem n hm)]
  exact hall _ fun n hn => ((mem_numbersIn_iff h first last n).mp hn).1

theorem pairwise_numbersIn (h : t.InStep) (first last : Option Nat) :
    (t.numbersIn first last).Pairwise (· < ·) :=
  h.ascending.sublist ((List.drop_sublist _ _).trans (List.take_sublist _ _))

/-- **The list of a range has the lines in it.** -/
theorem mem_list_iff (h : t.InStep) (first last : Option Nat) (n : Nat) (source : String) :
    (n, source) ∈ t.list first last ↔ (∀ a ∈ first, a ≤ n) ∧ (∀ b ∈ last, n ≤ b) ∧
      ∃ statements, t.content n = some (source, statements) := by
  rw [list, List.mem_filterMap]
  constructor
  · rintro ⟨k, hk, hl⟩
    obtain ⟨l, hget, heq⟩ := Option.map_eq_some_iff.mp hl
    obtain ⟨rfl, rfl⟩ := Prod.mk.inj heq
    obtain ⟨hfirst, hlast⟩ :=
      (Program.inRange_iff first last k).mp ((mem_numbersIn_iff h first last k).mp hk).2
    exact ⟨hfirst, hlast, l.statements, by rw [content, hget, Option.map_some]⟩
  · rintro ⟨hfirst, hlast, statements, hcontent⟩
    obtain ⟨l, hget, heq⟩ := Option.map_eq_some_iff.mp hcontent
    obtain ⟨rfl, -⟩ := Prod.mk.inj heq
    refine ⟨n, (mem_numbersIn_iff h first last n).mpr ⟨(h.keys n).mpr (by rw [hget]; rfl), ?_⟩,
      by rw [hget, Option.map_some]⟩
    exact (Program.inRange_iff first last n).mpr ⟨hfirst, hlast⟩

/-- Lines are taken out one after the other. -/
theorem foldl_delete (h : t.InStep) (doomed : List Nat) :
    (doomed.foldl (fun t n => (t.delete n).2) t).InStep ∧ ∀ k,
      (doomed.foldl (fun t n => (t.delete n).2) t).content k =
        if k ∈ doomed then none else t.content k := by
  induction doomed generalizing t with
  | nil => exact ⟨h, by simp⟩
  | cons n doomed ih =>
    obtain ⟨hstep, hcontent⟩ := ih (inStep_delete h n)
    refine ⟨hstep, fun k => ?_⟩
    rw [List.foldl_cons, hcontent, content, get?_delete, content]
    by_cases hk : k = n <;> by_cases hmem : k ∈ doomed <;> simp [hk, hmem]

theorem inStep_deleteRange (h : t.InStep) (first last : Option Nat) :
    (t.deleteRange first last).2.InStep :=
  (foldl_delete h _).1

/-- **A range is taken out as a whole.** -/
theorem view_deleteRange (h : t.InStep) (first last : Option Nat) :
    (t.deleteRange first last).2.view = t.view.eraseRange first last := by
  refine (inStep_deleteRange h first last).view_eq (h.orderly.filter _) fun k => ?_
  refine ((foldl_delete h _).2 k).trans ?_
  refine Eq.trans ?_ (Program.content_filter t.view (fun n => !inRange first last n) k).symm
  rw [map_fst_list h, h.content_view]
  simp only [mem_numbersIn_iff h]
  cases hrange : inRange first last k with
  | false => simp
  | true =>
    have hmissing : k ∉ t.numbers → t.content k = none := by
      intro hk
      rw [h.keys, Option.not_isSome_iff_eq_none] at hk
      rw [content, hk, Option.map_none]
    by_cases hk : k ∈ t.numbers
    · simp [hk]
    · simp [hk, hmissing hk]

/-! ## DATA items -/

/-- **The DATA items are those of the lines, whether they are collected now or were before.** -/
theorem dataItems_eq (h : t.InStep) :
    t.dataItems.1 = t.inOrder.flatMap ProgramLine.dataItems := by
  unfold dataItems
  split
  · rename_i items hitems
    exact h.items items hitems
  · rfl

theorem inStep_dataItems (h : t.InStep) : t.dataItems.2.InStep := by
  unfold dataItems
  split
  · exact h
  · exact ⟨h.ascending, h.keys, h.lines, fun items hitems => (Option.some.inj hitems).symm⟩

theorem view_dataItems (t : LineTable) : t.dataItems.2.view = t.view := by
  unfold dataItems
  split <;> rfl

/-- The DATA items from the map alone. -/
theorem items_content (h : t.InStep) : t.dataItems.1 = t.numbers.flatMap fun n =>
    (itemsIn ((t.content n).elim [] Prod.snd)).map fun item => (n, item) := by
  rw [dataItems_eq h, ← h.numbers_view, Program.numbers, List.flatMap_map]
  refine List.flatMap_congr fun l hl => ?_
  have hget := (h.mem_inOrder_iff l).mp hl
  have hcontent : t.content l.number = some (l.source, l.statements) := by
    rw [content, hget, Option.map_some]
  rw [hcontent, ProgramLine.dataItems, (h.lines _ _ hget).2.code]
  simp [compile, items_codeListAt]

/-! ## Loading and renumbering -/

/-- The lines of a text are added to the table as to the program. -/
theorem loadFrom_view (room index : Nat) (h : t.InStep) (raws : List String) :
    loadFrom Program.store room index t.view raws =
      (loadFrom store room index t raws).map view ∧
    ∀ t', loadFrom store room index t raws = .ok t' → t'.InStep := by
  induction raws generalizing index t with
  | nil =>
    refine ⟨rfl, fun t' ht' => ?_⟩
    obtain rfl := Except.ok.inj ht'
    exact h
  | cons raw raws ih =>
    unfold loadFrom
    split
    · exact ih (index + 1) h
    · split
      · exact ⟨rfl, fun _ hok => by cases hok⟩
      · exact ⟨rfl, fun _ hok => by cases hok⟩
      · split
        · exact ⟨rfl, fun _ hok => by cases hok⟩
        · rw [← view_store h]
          exact ih (index + 1) (inStep_store h _ _ _)

/-- The lines with new numbers are added to the table as to the program. -/
theorem renumberLines_view (room : Nat) (contains : Nat → Bool) (moves : Program.Moves)
    (h : t.InStep) (ls : List ProgramLine) :
    (renumberLines Program.store room contains moves t.view ls).1 =
      (renumberLines store room contains moves t ls).1.map view ∧
    ∀ t', (renumberLines store room contains moves t ls).1 = .ok t' → t'.InStep := by
  induction ls generalizing t with
  | nil =>
    refine ⟨rfl, fun t' ht' => ?_⟩
    obtain rfl := Except.ok.inj ht'
    exact h
  | cons l ls ih =>
    unfold renumberLines
    split
    · exact ⟨rfl, fun _ hok => by cases hok⟩
    · simp only
      split
      · exact ⟨rfl, fun _ hok => by cases hok⟩
      · rw [← view_store h]
        exact ih (inStep_store h _ _ _)

/-- The same lines without a cache. -/
theorem InStep.forget (h : t.InStep) : InStep { t with items := none } :=
  ⟨h.ascending, h.keys, h.lines, nofun⟩

theorem load_view (room : Nat) (text : String) :
    Program.load room text = (load room text).map view ∧
    ∀ t, load room text = .ok t → t.InStep := by
  obtain ⟨hview, hstep⟩ := loadFrom_view room 0 inStep_empty (Text.lines text)
  refine ⟨?_, fun t ht => ?_⟩
  · change loadFrom Program.store room 0 (view {}) (Text.lines text) = _
    rw [hview, load]
    cases loadFrom store room 0 {} (Text.lines text) <;> rfl
  · rw [load] at ht
    cases hload : loadFrom store room 0 {} (Text.lines text) with
    | error f => rw [hload] at ht; cases ht
    | ok t' =>
      rw [hload] at ht
      obtain rfl := Except.ok.inj ht
      exact (hstep t' hload).forget

theorem contains_view (h : t.InStep) : t.view.contains = t.lines.contains := by
  funext n
  rw [Program.contains, h.line?_view, Table.contains]

theorem renumber_view (room : Nat) (h : t.InStep) (newStart oldStart step : Option Nat) :
    (t.view.renumberDefault room newStart oldStart step).1 =
      (t.renumber room newStart oldStart step).1.map (Prod.map view id) ∧
    ∀ r, (t.renumber room newStart oldStart step).1 = .ok r → r.1.InStep := by
  unfold Program.renumberDefault Program.renumber renumber
  rw [h.numbers_view, contains_view h]
  cases plannedMoves t.numbers (newStart.getD 10) (oldStart.getD 0) (step.getD 10) with
  | error f => exact ⟨rfl, fun _ hok => by cases hok⟩
  | ok moves =>
    cases moves with
    | nil =>
      refine ⟨rfl, fun r hr => ?_⟩
      obtain rfl := Except.ok.inj hr
      exact h
    | cons move moves =>
      obtain ⟨hview, hstep⟩ :=
        renumberLines_view room t.lines.contains (move :: moves) inStep_empty t.inOrder
      refine ⟨(congrArg (Except.map _) hview).trans ?_, fun r hr => ?_⟩
      · change Except.map _ (Except.map _ _) = Except.map _ (Except.map _ _)
        cases (renumberLines store room t.lines.contains (move :: moves) {} t.inOrder).1 <;> rfl
      · change Except.map _ (renumberLines store room t.lines.contains (move :: moves) {}
          t.inOrder).1 = _ at hr
        cases hrun : (renumberLines store room t.lines.contains (move :: moves) {} t.inOrder).1 with
        | error f => rw [hrun] at hr; cases hr
        | ok t' =>
          rw [hrun] at hr
          obtain rfl := Except.ok.inj hr
          exact (hstep t' hrun).forget

/-! ## All that is done to a table -/

/-- The table after an edit; a text that cannot be loaded changes nothing. -/
def edit (t : LineTable) : Edit → LineTable
  | .store number source statements => t.store number source statements
  | .erase number => (t.delete number).2
  | .eraseRange first last => (t.deleteRange first last).2
  | .clear => {}
  | .load room text => (load room text).toOption.getD t

/-- The table afterwards; renumbering that fails changes nothing. -/
def call (t : LineTable) : Call → LineTable
  | .edit e => t.edit e
  | .renumber room newStart oldStart step =>
    match (t.renumber room newStart oldStart step).1 with
    | .ok r => r.1
    | .error _ => t
  | .dataItems => t.dataItems.2

/-- The table after all that was done to an empty one. -/
def after (calls : List Call) : LineTable := calls.foldl call {}

/-- The table after edits. -/
def edited (es : List Edit) (t : LineTable) : LineTable := es.foldl edit t

theorem refines_edit (h : t.InStep) (e : Edit) :
    (t.edit e).InStep ∧ (t.edit e).view = e.apply t.view := by
  cases e with
  | store n source statements =>
    exact ⟨inStep_store h n source statements, view_store h n source statements⟩
  | erase n => exact ⟨inStep_delete h n, view_delete h n⟩
  | eraseRange first last =>
    exact ⟨inStep_deleteRange h first last, view_deleteRange h first last⟩
  | clear => exact ⟨inStep_empty, rfl⟩
  | load room text =>
    obtain ⟨hview, hstep⟩ := load_view room text
    simp only [edit, Edit.apply, hview]
    cases hload : load room text with
    | error f => exact ⟨h, rfl⟩
    | ok t' => exact ⟨hstep t' hload, rfl⟩

/-- **What is done to the table is done to the program, and keeps it in step.** -/
theorem refines_call (h : t.InStep) (c : Call) :
    (t.call c).InStep ∧ (t.call c).view = c.apply t.view := by
  cases c with
  | edit e => exact refines_edit h e
  | renumber room newStart oldStart step =>
    obtain ⟨hview, hstep⟩ := renumber_view room h newStart oldStart step
    simp only [call, Call.apply, hview]
    cases hrun : (t.renumber room newStart oldStart step).1 with
    | error f => exact ⟨h, rfl⟩
    | ok r => exact ⟨hstep r hrun, rfl⟩
  | dataItems => exact ⟨inStep_dataItems h, view_dataItems t⟩

/-- One thing after the other is done to the table and to the program. -/
theorem refines_foldl {α : Type} {step : LineTable → α → LineTable}
    {step' : Program → α → Program}
    (hstep : ∀ {t : LineTable}, t.InStep → ∀ a, (step t a).InStep ∧
      (step t a).view = step' t.view a)
    (h : t.InStep) (as : List α) :
    (as.foldl step t).InStep ∧ (as.foldl step t).view = as.foldl step' t.view := by
  induction as generalizing t with
  | nil => exact ⟨h, rfl⟩
  | cons a as ih =>
    obtain ⟨hnext, hview⟩ := hstep h a
    rw [List.foldl_cons, List.foldl_cons, ← hview]
    exact ih hnext

/-! ## All that is asked of a table -/

/-- The table is what a map holds: its numbers ascend and are the keys of the lines, each line has
the number under which it stands and the code of its statements, and a number is found where it
stands in the list. Whatever is asked is answered from the map: the lines in a range, the first
number, the next number after another, and the DATA items. -/
structure Refines (t : LineTable) (c : Content) : Prop where
  ascending : t.numbers.Pairwise (· < ·)
  keys : ∀ n, n ∈ t.numbers ↔ t.lines.contains n = true
  found : ∀ n ∈ t.numbers, t.numbers[bisectLeft t.numbers n]? = some n
  lines : ∀ n, t.lines.get? n = (c n).map fun e => .new n e.1 e.2
  statements : ∀ n e, c n = some e → e.2 ≠ []
  list : ∀ first last, ((t.list first last).map Prod.fst).Pairwise (· < ·) ∧
    ∀ n source, (n, source) ∈ t.list first last ↔ (∀ a ∈ first, a ≤ n) ∧ (∀ b ∈ last, n ≤ b) ∧
      ∃ statements, c n = some (source, statements)
  listing : ∀ first last, t.listing first last =
    (t.list first last).map fun e => toString e.1 ++ " " ++ e.2
  lowest : ∀ k, t.lowest? = some k ↔ IsLeast {n | (c n).isSome} k
  next : ∀ n k, t.next? n = some k ↔ IsLeast {m | n < m ∧ (c m).isSome} k
  items : t.dataItems.1 = t.numbers.flatMap fun n =>
    (itemsIn ((c n).elim [] Prod.snd)).map fun item => (n, item)

theorem isSome_content (t : LineTable) (n : Nat) :
    (t.content n).isSome = t.lines.contains n := Option.isSome_map

/-- A number is the one that stands at a place if it is the least of those that do not lie before
it. -/
theorem InStep.getElem?_eq_some_iff (h : t.InStep) {place : Nat} {asked : Nat → Prop}
    (hplace : ∀ i m, t.numbers[i]? = some m → (place ≤ i ↔ asked m)) (k : Nat) :
    t.numbers[place]? = some k ↔ IsLeast {n | asked n ∧ (t.content n).isSome} k := by
  have hstored : ∀ n, (t.content n).isSome ↔ n ∈ t.numbers := fun n => by
    rw [isSome_content, h.keys]
    rfl
  constructor
  · intro hk
    refine ⟨⟨(hplace _ k hk).mp (le_refl _), (hstored k).mpr (List.mem_of_getElem? hk)⟩, ?_⟩
    rintro n ⟨hasked, hn⟩
    obtain ⟨i, hi⟩ := List.mem_iff_getElem?.mp ((hstored n).mp hn)
    rcases ((hplace i n hi).mpr hasked).eq_or_lt with rfl | hlt
    · exact (Option.some.inj (hk.symm.trans hi)).le
    · obtain ⟨hlength, rfl⟩ := List.getElem?_eq_some_iff.mp hk
      obtain ⟨hlength', rfl⟩ := List.getElem?_eq_some_iff.mp hi
      exact (List.pairwise_iff_getElem.mp h.ascending _ _ hlength hlength' hlt).le
  · rintro ⟨⟨hasked, hk⟩, hleast⟩
    obtain ⟨i, hi⟩ := List.mem_iff_getElem?.mp ((hstored k).mp hk)
    have hle := (hplace i k hi).mpr hasked
    obtain ⟨hlength, hki⟩ := List.getElem?_eq_some_iff.mp hi
    have hat := List.getElem?_eq_getElem (hle.trans_lt hlength)
    have hfirst := hleast ⟨(hplace place _ hat).mp (le_refl _),
      (hstored _).mpr (List.mem_of_getElem? hat)⟩
    rcases hle.eq_or_lt with rfl | hlt
    · exact hi
    · have hless :=
        List.pairwise_iff_getElem.mp h.ascending place i (hle.trans_lt hlength) hlength hlt
      omega

/-- **A table in step is the map that it holds.** -/
theorem InStep.refines (h : t.InStep) : t.Refines t.content where
  ascending := h.ascending
  keys := h.keys
  found _ hn := getElem?_bisectLeft h.ascending hn
  lines n := by rw [← h.line?_view, h.orderly.line?_eq, h.content_view]
  statements n e he := by
    obtain ⟨l, hl, rfl⟩ := Option.map_eq_some_iff.mp he
    exact (h.lines n l hl).2.statements
  list first last := by
    refine ⟨?_, mem_list_iff h first last⟩
    rw [map_fst_list h]
    exact pairwise_numbersIn h first last
  listing first last := rfl
  lowest k := by
    have hleast := @InStep.getElem?_eq_some_iff t h 0 (fun _ => True) (by simp) k
    rw [lowest?, List.head?_eq_getElem?, hleast]
    simp
  next n k := by
    refine h.getElem?_eq_some_iff (fun i m hi => ?_) k
    have hbefore := lt_bisectRight_iff h.ascending n i
    simp only [hi, Option.some.injEq, exists_eq_left'] at hbefore
    simpa using not_congr hbefore
  items := items_content h

/-! ## The main result -/

/-- What the last of the edits that concern a number has put there. -/
def lastMade (es : List Edit) (n : Nat) : Option (Option (String × List Statement)) :=
  es.reverse.findSome? (Edit.makes n)

/-- The same numbers, the same line under each of them, and the same DATA items. -/
structure SameLines (t t' : LineTable) : Prop where
  numbers : t.numbers = t'.numbers
  lines : ∀ n, t.lines.get? n = t'.lines.get? n
  items : t.dataItems.1 = t'.dataItems.1

theorem sameLines_of_view {t' : LineTable} (h : t.InStep) (h' : t'.InStep)
    (hview : t.view = t'.view) : t.SameLines t' where
  numbers := by rw [← h.numbers_view, hview, h'.numbers_view]
  lines n := by rw [← h.line?_view, hview, h'.line?_view]
  items := by rw [dataItems_eq h, dataItems_eq h']; exact congrArg _ (Program.mk.inj hview)

theorem content_edited (h : t.InStep) (es : List Edit) (n : Nat) :
    (edited es t).content n = (lastMade es n).getD (t.content n) := by
  obtain ⟨hstep, hview⟩ := refines_foldl refines_edit h es
  rw [edited, ← hstep.content_view, hview, Program.content_foldl Program.content_apply,
    h.content_view, lastMade]

theorem inStep_after (calls : List Call) :
    (after calls).InStep ∧ (after calls).view = Program.after calls :=
  refines_foldl refines_call inStep_empty calls

/-- **The lines of a program are a map from numbers to lines**, whatever was done: the numbers, the
table and the cache are in step, and all that is asked is answered from the map. The same is done to
a list of lines in ascending order. An edit changes what stands under the numbers that it concerns,
and nothing else; taking out a range takes out the lines that are listed, and counts them. The lines
depend only on what the last edit of each number has put there, and not on the order in which lines
with different numbers were edited. -/
theorem refines_after (calls : List Call) :
    (after calls).Refines (after calls).content ∧
    (after calls).view = Program.after calls ∧
    (∀ (e : Edit) n, ((after calls).edit e).content n =
      (e.makes n).getD ((after calls).content n)) ∧
    (∀ first last, ((after calls).deleteRange first last).1 =
      ((after calls).list first last).length) ∧
    ∀ es es' : List Edit, (∀ n, lastMade es n = lastMade es' n) →
      (edited es (after calls)).SameLines (edited es' (after calls)) := by
  obtain ⟨hstep, hview⟩ := inStep_after calls
  refine ⟨hstep.refines, hview, fun e n => ?_, fun first last => List.length_map .., ?_⟩
  · have hone := content_edited hstep [e] n
    simpa [edited, lastMade] using hone
  · intro es es' hlast
    have hdone : (edited es (after calls)).InStep := (refines_foldl refines_edit hstep es).1
    have hdone' : (edited es' (after calls)).InStep := (refines_foldl refines_edit hstep es').1
    refine sameLines_of_view hdone hdone' (hdone.view_eq hdone'.orderly fun n => ?_)
    rw [hdone'.content_view, content_edited hstep, content_edited hstep, hlast]

/-- Two lines that were entered in either order, one of them twice. -/
theorem refines_after_reordered :
    (edited [.store 20 "CLS" [.command 1 .cls], .store 10 "END" [.command 1 .finish],
      .store 10 "STOP" [.command 1 .stop]] (after [.dataItems])).SameLines
    (edited [.store 10 "STOP" [.command 1 .stop], .store 20 "CLS" [.command 1 .cls]]
      (after [.dataItems])) := by
  refine (refines_after [.dataItems]).2.2.2.2 _ _ fun n => ?_
  by_cases h10 : 10 = n
  · subst h10
    rfl
  · by_cases h20 : 20 = n
    · subst h20
      rfl
    · simp [lastMade, Edit.makes, Program.puts, h10, h20]

end LineTable

end LineBasic
