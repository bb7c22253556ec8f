import Mathlib
import LineBasic.Table

/-!
# What tables hold

* `Table.find?_put`, `Table.sum_put`, `Table.sum_remove`: looking up and adding up after a change.
* `Table.nodup_put`, `Table.nodup_remove`: a table has each name once.
* `Table.Varies`: entries of which the values under certain names, and the presence of these names
  at the end, may have changed. `Table.Varies.undo`: putting back what stood under a name makes it
  vary under the others only, and `Table.Varies.eq`: entries that vary under no name are the same.
-/

namespace LineBasic.Table

variable {α κ : Type} [DecidableEq κ] {es : List (κ × α)} {name key : κ} {a : α}

/-! ## Looking up -/

theorem find?_put (name key : κ) (a : α) (es : List (κ × α)) :
    find? key (put name a es) = if key = name then some a else find? key es := by
  induction es with
  | nil => simp [put, find?, eq_comm]
  | cons e es ih =>
    unfold put
    split
    · rename_i he
      by_cases hkey : key = name
      · simp [find?, hkey]
      · simp [find?, Ne.symm hkey, he, hkey]
    · rename_i he
      rw [find?, find?, ih]
      by_cases hkey : key = name
      · simp [hkey, he]
      · simp [hkey]

theorem find?_append (es es' : List (κ × α)) :
    find? key (es ++ es') = (find? key es).or (find? key es') := by
  induction es with
  | nil => simp [find?]
  | cons e es ih =>
    rw [List.cons_append, find?, find?, ih]
    split <;> simp

theorem mem_of_find? (h : find? key es = some a) : (key, a) ∈ es := by
  induction es with
  | nil => cases h
  | cons e es ih =>
    rw [find?] at h
    split at h
    · rename_i he
      obtain rfl := Option.some.inj h
      exact he ▸ List.mem_cons_self
    · exact List.mem_cons_of_mem _ (ih h)

theorem find?_eq_none_iff : find? key es = none ↔ ∀ e ∈ es, e.1 ≠ key := by
  induction es with
  | nil => simp [find?]
  | cons e es ih =>
    rw [find?]
    split
    · rename_i he
      simp [he]
    · rename_i he
      simp [he, ih]

/-! ## Each name once -/

theorem put_of_find?_eq_none (h : find? name es = none) : put name a es = es ++ [(name, a)] := by
  induction es with
  | nil => rfl
  | cons e es ih =>
    rw [find?] at h
    split at h
    · cases h
    · rename_i he
      rw [put, if_neg he, ih h]
      rfl

theorem keys_put_of_find? {b : α} (h : find? name es = some b) :
    (put name a es).map Prod.fst = es.map Prod.fst := by
  induction es with
  | nil => cases h
  | cons e es ih =>
    rw [find?] at h
    rw [put]
    split at h
    · rename_i he
      simp [he]
    · rename_i he
      simp [he, ih h]

theorem mem_put {e : κ × α} (h : e ∈ put name a es) : e = (name, a) ∨ e ∈ es := by
  induction es with
  | nil => exact .inl (List.mem_singleton.mp h)
  | cons x es ih =>
    rw [put] at h
    split at h
    · rcases List.mem_cons.mp h with rfl | h
      · exact .inl rfl
      · exact .inr (List.mem_cons_of_mem _ h)
    · rcases List.mem_cons.mp h with rfl | h
      · exact .inr List.mem_cons_self
      · exact (ih h).imp_right (List.mem_cons_of_mem _)

theorem nodup_put (h : (es.map Prod.fst).Nodup) : ((put name a es).map Prod.fst).Nodup := by
  cases hfind : find? name es with
  | some b => rwa [keys_put_of_find? hfind]
  | none =>
    rw [put_of_find?_eq_none hfind, List.map_append, List.nodup_append]
    refine ⟨h, List.nodup_singleton _, ?_⟩
    rintro x hx y hy rfl
    obtain ⟨e, he, rfl⟩ := List.mem_map.mp hx
    exact find?_eq_none_iff.mp hfind e he (List.mem_singleton.mp hy)

theorem remove_eq_filter (name : κ) (es : List (κ × α)) :
    remove name es = es.filter fun e => e.1 ≠ name := by
  induction es with
  | nil => rfl
  | cons e es ih =>
    rw [remove, List.filter_cons]
    split <;> simp_all

theorem mem_remove {e : κ × α} (h : e ∈ remove name es) : e ∈ es := by
  rw [remove_eq_filter] at h
  exact List.mem_of_mem_filter h

theorem nodup_remove (h : (es.map Prod.fst).Nodup) : ((remove name es).map Prod.fst).Nodup := by
  rw [remove_eq_filter]
  exact h.sublist (List.filter_sublist.map _)

theorem remove_of_find?_eq_none (h : find? name es = none) : remove name es = es := by
  rw [remove_eq_filter, List.filter_eq_self]
  intro e he
  simpa using find?_eq_none_iff.mp h e he

theorem get?_erase (t : Table α κ) (name key : κ) :
    (t.erase name).get? key = if key = name then none else t.get? key := by
  unfold get? erase
  induction t.entries with
  | nil => simp [remove, find?]
  | cons e es ih =>
    rw [remove]
    by_cases he : e.1 = name
    · rw [if_pos he, ih, find?]
      by_cases hkey : key = name
      · simp [hkey]
      · rw [if_neg hkey, if_neg hkey, if_neg fun heq => hkey (heq.symm.trans he)]
    · rw [if_neg he, find?, find?, ih]
      by_cases hkey : key = name
      · simp [hkey, he]
      · simp [hkey]

/-- Changing a value changes a sum over all values by the difference. -/
theorem sum_put (f : α → Nat) {b : α} (h : find? name es = some b) :
    ((put name a es).map fun e => f e.2).sum + f b = (es.map fun e => f e.2).sum + f a := by
  induction es with
  | nil => cases h
  | cons e es ih =>
    rw [find?] at h
    rw [put]
    split at h
    · rename_i he
      obtain rfl := Option.some.inj h
      rw [if_pos he]
      simp only [List.map_cons, List.sum_cons]
      omega
    · rename_i he
      have ih := ih h
      rw [if_neg he]
      simp only [List.map_cons, List.sum_cons]
      omega

/-- Taking out a name that is there once takes its value out of a sum. -/
theorem sum_remove (f : α → Nat) (hnodup : (es.map Prod.fst).Nodup) (h : find? name es = some a) :
    ((remove name es).map fun e => f e.2).sum + f a = (es.map fun e => f e.2).sum := by
  induction es with
  | nil => cases h
  | cons e es ih =>
    obtain ⟨hfresh, hnodup⟩ := List.nodup_cons.mp hnodup
    rw [find?] at h
    rw [remove]
    split at h
    · rename_i he
      obtain rfl := Option.some.inj h
      have hnone : find? name es = none := by
        rw [find?_eq_none_iff]
        rintro x hx rfl
        exact hfresh (he ▸ List.mem_map_of_mem hx)
      rw [if_pos he, remove_of_find?_eq_none hnone]
      simp only [List.map_cons, List.sum_cons]
      omega
    · rename_i he
      have ih := ih hnodup h
      rw [if_neg he]
      simp only [List.map_cons, List.sum_cons]
      omega

/-- Taking out a name that is there once takes out one entry. -/
theorem length_remove (name : κ) (h : (es.map Prod.fst).Nodup) :
    (remove name es).length + (if (find? name es).isSome then 1 else 0) = es.length := by
  cases hfind : find? name es with
  | none => simp [remove_of_find?_eq_none hfind]
  | some a => simpa using sum_remove (fun _ => 1) h hfind

/-! ## Entries that vary -/

/-- The entries may differ in the values under the given names, which may also have been added at
the end. -/
inductive Varies : Set κ → List (κ × α) → List (κ × α) → Prop where
  | nil {names : Set κ} {added : List (κ × α)} (among : ∀ e ∈ added, e.1 ∈ names)
      (nodup : (added.map Prod.fst).Nodup) : Varies names [] added
  | hit {names : Set κ} {name : κ} {a b : α} {es es' : List (κ × α)} (among : name ∈ names)
      (rest : Varies (names \ {name}) es es') : Varies names ((name, a) :: es) ((name, b) :: es')
  | miss {names : Set κ} {name : κ} {a : α} {es es' : List (κ × α)} (apart : name ∉ names)
      (rest : Varies names es es') : Varies names ((name, a) :: es) ((name, a) :: es')

namespace Varies

variable {names : Set κ} {es' : List (κ × α)}

omit [DecidableEq κ] in
theorem refl (names : Set κ) (es : List (κ × α)) : Varies names es es := by
  induction es generalizing names with
  | nil => exact .nil nofun .nil
  | cons e es ih =>
    by_cases he : e.1 ∈ names
    · exact .hit he (ih _)
    · exact .miss he (ih _)

omit [DecidableEq κ] in
/-- Entries that vary under no name are the same. -/
theorem eq (h : Varies ∅ es es') : es' = es := by
  generalize hnames : (∅ : Set κ) = names at h
  induction h with
  | nil among _ =>
    subst hnames
    exact List.eq_nil_iff_forall_not_mem.mpr fun e he => among e he
  | hit among _ _ =>
    subst hnames
    exact absurd among (Set.notMem_empty _)
  | miss _ _ ih => rw [ih hnames]

/-- A value is stored under one of the names. -/
theorem put (h : Varies names es es') (hname : name ∈ names) (a : α) :
    Varies names es (Table.put name a es') := by
  induction h with
  | @nil names added among nodup =>
    refine .nil (fun e he => ?_) (nodup_put nodup)
    rcases mem_put he with rfl | he
    · exact hname
    · exact among e he
  | @hit names key b c es es' among rest ih =>
    rw [Table.put]
    split
    · rename_i hkey
      subst hkey
      exact .hit among rest
    · rename_i hkey
      exact .hit among (ih ⟨hname, Ne.symm hkey⟩)
  | @miss names key b es es' apart rest ih =>
    rw [Table.put, if_neg (by rintro rfl; exact apart hname)]
    exact .miss apart (ih hname)

/-- A name keeps having a value. -/
theorem isSome_find? (h : Varies names es es') (hfind : (find? key es).isSome) :
    (find? key es').isSome := by
  induction h with
  | nil => cases hfind
  | hit _ _ ih | miss _ _ ih =>
    rw [find?] at hfind ⊢
    split
    · rfl
    · rename_i hkey
      exact ih (by simpa [hkey] using hfind)

/-- What stood under a name is put back: nothing, or its value. -/
theorem undo (h : Varies names es es') (name : κ) : Varies (names \ {name}) es
    (match find? name es with
      | none => remove name es'
      | some a => Table.put name a es') := by
  induction h with
  | @nil names added among nodup =>
    refine .nil (fun e he => ?_) (nodup_remove nodup)
    replace he : e ∈ remove name added := he
    rw [remove_eq_filter, List.mem_filter] at he
    exact ⟨among e he.1, by simpa using he.2⟩
  | @hit names key a b es es' among rest ih =>
    rw [find?]
    by_cases hkey : key = name
    · subst hkey
      simp only [if_true, Table.put]
      exact .miss (fun h => h.2 rfl) rest
    · simp only [if_neg hkey, Table.put, remove]
      rw [Set.sdiff_sdiff_comm] at ih
      split <;> rename_i hfind <;> rw [hfind] at ih <;> exact .hit ⟨among, hkey⟩ ih
  | @miss names key a es es' apart rest ih =>
    rw [find?]
    by_cases hkey : key = name
    · subst hkey
      simp only [if_true, Table.put]
      rw [Set.sdiff_singleton_eq_self apart]
      exact .miss apart rest
    · simp only [if_neg hkey, Table.put, remove]
      split <;> rename_i hfind <;> rw [hfind] at ih <;> exact .miss (fun h => apart h.1) ih

/-- Taking out a name that was not there before takes out one entry, if it is there now. -/
theorem length_remove (h : Varies names es es') (hfind : find? name es = none) :
    (remove name es').length + (if (find? name es').isSome then 1 else 0) = es'.length := by
  induction h with
  | nil _ nodup => exact Table.length_remove name nodup
  | hit _ _ ih | miss _ _ ih =>
    rw [find?] at hfind
    split at hfind
    · cases hfind
    · rename_i hkey
      have ih := ih hfind
      rw [remove, if_neg hkey, find?, if_neg hkey]
      simp only [List.length_cons]
      omega

end Varies

end LineBasic.Table
