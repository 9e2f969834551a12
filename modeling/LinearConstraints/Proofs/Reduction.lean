/-
Reduction: merging the occurrences of each variable.

Reduction is a fold that writes to a table. After each prefix of the terms
the table has the variables of the prefix, in the order in which they
occurred first, each with the sum of its coefficients so far. That needs
no law of the arithmetic: the sums are taken from left to right, starting
with zero, whatever adding comes to.

In exact arithmetic more can be said. Merging two terms can be put off
until after other variables have been merged, as long as the place of the
first occurrence stays, and so it does not matter whether an expression is
reduced before it is merged into a table or after. Reducing again changes
nothing, and a sum may be reduced piece by piece.

Main statements: `get?_coefficients` and `pairwise_vars_reduce`, what the
table holds and in which order; `foldl_merge_reduce`, that merging a
reduced expression is merging the expression; and `reduce_merges`, the
whole.
-/
import Mathlib.Data.List.Induction
import LinearConstraints.Expression.Basic
import LinearConstraints.Proofs.TableSum

namespace LinearConstraints

-- ============================================================== tables

namespace Table

variable {κ β : Type} [DecidableEq κ]

/-- Of two values written to one key the second stays. -/
theorem insert_insert (t : Table κ β) (k : κ) (v v' : β) :
    (t.insert k v).insert k v' = t.insert k v' := by
  have key : ∀ l : List (κ × β), write k v' (write k v l) = write k v' l := by
    intro l
    induction l with
    | nil => simp [write]
    | cons e rest ih =>
        obtain ⟨j, w⟩ := e
        by_cases hj : j = k
        · simp [write, hj]
        · simp [write, hj, ih]
  exact Table.ext (key t.entries)

/-- Writing in place commutes with writing to another key. -/
theorem insert_comm {t : Table κ β} {k k' : κ} (hne : k ≠ k')
    (hk : k ∈ t.keys) (v v' : β) :
    (t.insert k' v').insert k v = (t.insert k v).insert k' v' := by
  have key : ∀ l : List (κ × β), k ∈ l.map Prod.fst →
      write k v (write k' v' l) = write k' v' (write k v l) := by
    intro l
    induction l with
    | nil => exact fun h => absurd h List.not_mem_nil
    | cons e rest ih =>
        obtain ⟨j, w⟩ := e
        intro h
        by_cases hj : j = k
        · subst hj
          simp [write, hne]
        · have hrest : k ∈ rest.map Prod.fst := by
            rcases List.mem_cons.1 h with h | h
            · exact absurd h.symm hj
            · exact h
          by_cases hj' : j = k'
          · subst hj'
            simp [write, hne.symm]
          · simp [write, hj, hj', ih hrest]
  exact Table.ext (key t.entries hk)

end Table

namespace Expression

variable {α : Type} [Scalar α] {x : Variable}

-- ====================================================== merged so far

/-- The sum of the coefficients of a variable, from left to right and
starting with zero. -/
def sumOf (x : Variable) (e : Expression α) : α :=
  ((e.terms.filter fun t => t.var = x).map Term.coefficient).foldl
    (· + ·) 0

/-- A variable that does not occur has nothing to add up. -/
theorem sumOf_of_not_mem {e : Expression α} (h : x ∉ e.vars) :
    e.sumOf x = 0 := by
  have hnone : (e.terms.filter fun t => t.var = x) = [] := by
    refine List.filter_eq_nil_iff.2 fun t ht hx => h ?_
    exact of_decide_eq_true hx ▸ List.mem_map_of_mem ht
  unfold sumOf
  rw [hnone]
  rfl

-- The fold goes from left to right, so the list of terms grows at its end.

private theorem coefficients_append (l : List (Term α)) (t : Term α)
    (k : α) :
    coefficients ⟨l ++ [t], k⟩ = merge (coefficients ⟨l, k⟩) t :=
  List.foldl_append

omit [Scalar α] in
private theorem vars_append (l : List (Term α)) (t : Term α) (k : α) :
    vars ⟨l ++ [t], k⟩ = vars ⟨l, k⟩ ++ [t.var] :=
  List.map_append

/-- One more term adds to the sum of its variable. -/
private theorem sumOf_append (l : List (Term α)) (t : Term α) (k : α)
    (x : Variable) :
    sumOf x ⟨l ++ [t], k⟩
      = if t.var = x then sumOf x ⟨l, k⟩ + t.coefficient
        else sumOf x ⟨l, k⟩ := by
  unfold sumOf
  rw [List.filter_append]
  by_cases hx : t.var = x
  · simp [hx]
  · simp [hx]

/-- What the fold holds for a variable: the sum of its coefficients, if it
occurs. -/
theorem get?_coefficients (e : Expression α) (x : Variable) :
    e.coefficients.get? x = if x ∈ e.vars then some (e.sumOf x) else none := by
  obtain ⟨l, k⟩ := e
  induction l using List.reverseRecOn generalizing x with
  | nil => rfl
  | append_singleton l t ih =>
      rw [coefficients_append, vars_append, sumOf_append, merge,
        Table.get?_insert]
      by_cases hx : t.var = x
      · subst hx
        have hsum : ((coefficients ⟨l, k⟩).get? t.var).getD 0
            = sumOf t.var ⟨l, k⟩ := by
          rw [ih]
          by_cases hin : t.var ∈ vars (⟨l, k⟩ : Expression α)
          · rw [if_pos hin]
            rfl
          · rw [if_neg hin, sumOf_of_not_mem hin]
            rfl
        rw [if_pos rfl, if_pos rfl, if_pos (by simp), hsum]
      · have hmem : x ∈ vars (⟨l, k⟩ : Expression α) ++ [t.var]
            ↔ x ∈ vars (⟨l, k⟩ : Expression α) := by simp [Ne.symm hx]
        rw [if_neg hx, if_neg hx, ih, if_congr hmem rfl rfl]

-- ================================================== order of the result

theorem vars_reduce (e : Expression α) :
    e.reduce.vars = e.coefficients.keys :=
  List.map_map

theorem mem_vars_reduce_iff {e : Expression α} :
    x ∈ e.reduce.vars ↔ x ∈ e.vars := by
  rw [vars_reduce, Table.mem_keys_iff, get?_coefficients]
  by_cases h : x ∈ e.vars <;> simp [h]

/-- The variables of the result stand in the order in which they occurred
first. In particular no variable stands there twice. -/
theorem pairwise_vars_reduce (e : Expression α) :
    e.reduce.vars.Pairwise fun x y => e.vars.idxOf x < e.vars.idxOf y := by
  obtain ⟨l, k⟩ := e
  rw [vars_reduce]
  induction l using List.reverseRecOn with
  | nil => exact .nil
  | append_singleton l t ih =>
      have hold : ∀ {y}, y ∈ (coefficients ⟨l, k⟩).keys →
          y ∈ vars (⟨l, k⟩ : Expression α) := by
        intro y hy
        rw [← vars_reduce] at hy
        exact mem_vars_reduce_iff.1 hy
      -- A longer list finds its old elements where they were.
      have hidx : (coefficients ⟨l, k⟩).keys.Pairwise fun x y =>
          (vars ⟨l ++ [t], k⟩).idxOf x < (vars ⟨l ++ [t], k⟩).idxOf y := by
        refine ih.imp_of_mem fun hx hy hlt => ?_
        rwa [vars_append, List.idxOf_append_of_mem (hold hx),
          List.idxOf_append_of_mem (hold hy)]
      rw [coefficients_append, merge, Table.keys_insert]
      by_cases hin : t.var ∈ (coefficients ⟨l, k⟩).keys
      · rwa [if_pos hin]
      · have hnew : t.var ∉ vars (⟨l, k⟩ : Expression α) := by
          rwa [← vars_reduce, mem_vars_reduce_iff] at hin
        rw [if_neg hin]
        refine List.pairwise_append.2
          ⟨hidx, List.pairwise_singleton .., fun x hx y hy => ?_⟩
        rw [List.mem_singleton.1 hy, vars_append,
          List.idxOf_append_of_mem (hold hx),
          List.idxOf_append_of_notMem hnew]
        exact (List.idxOf_lt_length_of_mem (hold hx)).trans_le
          (Nat.le_add_right ..)

theorem nodup_vars_reduce (e : Expression α) : e.reduce.vars.Nodup :=
  vars_reduce e ▸ e.coefficients.nodup_keys

/-- The coefficient of each term of the result. -/
theorem coefficient_of_mem_reduce {e : Expression α} {t : Term α}
    (ht : t ∈ e.reduce.terms) : t.coefficient = e.sumOf t.var := by
  obtain ⟨⟨y, k⟩, hmem, rfl⟩ := List.mem_map.1 ht
  have hget := Table.get?_eq_some_iff.2 hmem
  rw [get?_coefficients] at hget
  split at hget
  · exact (Option.some.inj hget).symm
  · cases hget

-- ==================================================== exact arithmetic

section Exact

/-- Terms of one variable are merged as their sum is. -/
private theorem merge_merge (T : Table Variable Rat) (x : Variable)
    (a b : Rat) :
    merge (merge T ⟨x, a⟩) ⟨x, b⟩ = merge T ⟨x, a + b⟩ := by
  unfold merge
  dsimp only
  rw [Table.get?_insert, if_pos rfl, Table.insert_insert]
  congr 1
  exact add_assoc ..

/-- A term of a variable that has its place can be merged before or after
a term of another one. -/
private theorem merge_comm {T : Table Variable Rat} {t u : Term Rat}
    (hne : t.var ≠ u.var) (ht : t.var ∈ T.keys) :
    merge (merge T u) t = merge (merge T t) u := by
  unfold merge
  rw [Table.get?_insert, if_neg hne.symm, Table.get?_insert, if_neg hne]
  exact Table.insert_comm hne ht ..

/-- A term of a variable that has its place can be merged before or after
a list of terms of other variables. -/
private theorem foldl_merge_comm {t : Term Rat} (l : List (Term Rat)) :
    ∀ {T : Table Variable Rat}, t.var ∈ T.keys →
      (∀ u ∈ l, u.var ≠ t.var) →
      l.foldl merge (merge T t) = merge (l.foldl merge T) t := by
  induction l with
  | nil => exact fun _ _ => rfl
  | cons u l ih =>
      intro T ht hl
      have hu := (hl u (List.mem_cons_self ..)).symm
      have hkeys : t.var ∈ (merge T u).keys := by
        unfold merge
        rw [Table.keys_insert]
        split
        · exact ht
        · exact List.mem_append_left _ ht
      rw [List.foldl_cons, ← merge_comm hu ht,
        ih hkeys fun v hv => hl v (List.mem_cons_of_mem u hv)]
      rfl

/-- A variable has its place as soon as one of its terms is merged. -/
private theorem mem_keys_merge (T : Table Variable Rat) (t : Term Rat) :
    t.var ∈ (merge T t).keys :=
  Table.mem_keys_iff.2 ⟨_, (Table.get?_insert ..).trans (if_pos rfl)⟩

/-- The term of a table entry. -/
private def ofEntry (c : Variable × Rat) : Term Rat := ⟨c.1, c.2⟩

/-- Raising an entry and then merging all is merging all and then the
amount. -/
private theorem foldl_merge_write (x : Variable) (k : Rat)
    (l : List (Variable × Rat)) : ∀ T, (l.map Prod.fst).Nodup →
      ((Table.write x ((Table.lookup x l).getD 0 + k) l).map ofEntry).foldl
          merge T
        = merge ((l.map ofEntry).foldl merge T) ⟨x, k⟩ := by
  induction l with
  | nil =>
      intro T _
      show merge T ⟨x, 0 + k⟩ = merge T ⟨x, k⟩
      rw [zero_add]
  | cons c l ih =>
      obtain ⟨y, a⟩ := c
      intro T hnodup
      obtain ⟨hy, hnodup⟩ := List.nodup_cons.1 hnodup
      by_cases hyx : y = x
      · subst hyx
        have hrest : ∀ u ∈ l.map ofEntry, u.var ≠ y := by
          intro u hu heq
          obtain ⟨c, hc, rfl⟩ := List.mem_map.1 hu
          exact hy (List.mem_map.2 ⟨c, hc, heq⟩)
        rw [Table.lookup, if_pos rfl, Table.write, if_pos rfl]
        show (l.map ofEntry).foldl merge (merge T ⟨y, a + k⟩) = _
        rw [← merge_merge]
        exact foldl_merge_comm (l.map ofEntry) (mem_keys_merge T ⟨y, a⟩)
          hrest
      · rw [Table.lookup, if_neg hyx, Table.write, if_neg hyx]
        exact ih (merge T ⟨y, a⟩) hnodup

/-- It does not matter whether an expression is reduced before it is
merged into a table. -/
theorem foldl_merge_reduce (e : Expression Rat) (T : Table Variable Rat) :
    e.reduce.terms.foldl merge T = e.terms.foldl merge T := by
  obtain ⟨l, k⟩ := e
  induction l using List.reverseRecOn with
  | nil => rfl
  | append_singleton l t ih =>
      rw [List.foldl_append, ← ih]
      show ((coefficients ⟨l ++ [t], k⟩).entries.map ofEntry).foldl merge T
        = merge _ t
      rw [coefficients_append]
      exact foldl_merge_write t.var t.coefficient _ T
        (coefficients ⟨l, k⟩).nodup

/-- Reducing again changes nothing. -/
theorem reduce_reduce (e : Expression Rat) : e.reduce.reduce = e.reduce := by
  have hcoef : e.reduce.coefficients = e.coefficients :=
    foldl_merge_reduce e .empty
  unfold reduce
  exact congrArg (fun T : Table Variable Rat =>
    (⟨T.entries.map ofEntry, e.constant⟩ : Expression Rat)) hcoef

/-- A sum may be reduced piece by piece. -/
theorem reduce_plus (a b : Expression Rat) :
    (a.reduce.plus b.reduce).reduce = (a.plus b).reduce := by
  have hcoef : (a.reduce.plus b.reduce).coefficients
      = (a.plus b).coefficients := by
    unfold coefficients
    rw [terms_plus, terms_plus, List.foldl_append, List.foldl_append,
      foldl_merge_reduce, foldl_merge_reduce]
  exact congrArg (fun T : Table Variable Rat =>
    (⟨T.entries.map ofEntry, a.constant + b.constant⟩ : Expression Rat))
    hcoef

end Exact

-- ========================================================= all together

/-- What reduction does, in any arithmetic: each variable of the
expression occurs once and no other does, in the order of first
occurrence, with the sum of its coefficients from left to right; the
constant stays. In exact arithmetic it is idempotent, and a sum may be
reduced piece by piece. -/
theorem reduce_merges :
    (∀ {α : Type} [Scalar α] (e : Expression α),
      e.reduce.vars.Nodup
      ∧ (∀ x, x ∈ e.reduce.vars ↔ x ∈ e.vars)
      ∧ (e.reduce.vars.Pairwise fun x y =>
          e.vars.idxOf x < e.vars.idxOf y)
      ∧ (∀ t ∈ e.reduce.terms, t.coefficient = e.sumOf t.var)
      ∧ e.reduce.constant = e.constant)
    ∧ (∀ e : Expression Rat, e.reduce.reduce = e.reduce)
    ∧ ∀ a b : Expression Rat,
        (a.plus b).reduce = (a.reduce.plus b.reduce).reduce := by
  refine ⟨fun e => ?_, reduce_reduce, fun a b => (reduce_plus a b).symm⟩
  exact ⟨nodup_vars_reduce e, fun _ => mem_vars_reduce_iff,
    pairwise_vars_reduce e, fun _ => coefficient_of_mem_reduce, rfl⟩

end Expression

end LinearConstraints
