/-
Sums over tables: the total of a quantity read off each entry.

A table keeps its keys distinct, so writing to a key or erasing it moves
the total by exactly what the key contributes before and after.

Main statements: `sum_insert`, `sum_erase` and `sum_single`.
-/
import LinearConstraints.Proofs.Exact
import LinearConstraints.Table

namespace LinearConstraints.Table

variable {κ β γ : Type}

/-- The total of a quantity over the entries. -/
def sum (t : Table κ β) (f : κ → β → Rat) : Rat :=
  (t.entries.map fun e => f e.1 e.2).sum

-- ==================================================== lists of pairs

section Pairs

variable [DecidableEq κ] (f : κ → β → Rat)

private theorem sum_write (k : κ) (v : β) (l : List (κ × β)) :
    ((write k v l).map fun e => f e.1 e.2).sum + (lookup k l).elim 0 (f k)
      = (l.map fun e => f e.1 e.2).sum + f k v := by
  induction l with
  | nil => simp [write, lookup]
  | cons e rest ih =>
      obtain ⟨k', v'⟩ := e
      by_cases h : k' = k
      · subst h
        simp only [write, lookup, if_pos, List.map_cons, List.sum_cons,
          Option.elim_some]
        ring
      · simp only [write, lookup, if_neg h, List.map_cons, List.sum_cons]
        linarith

private theorem sum_drop (k : κ) {l : List (κ × β)}
    (hl : (l.map Prod.fst).Nodup) :
    ((drop k l).map fun e => f e.1 e.2).sum + (lookup k l).elim 0 (f k)
      = (l.map fun e => f e.1 e.2).sum := by
  induction l with
  | nil => simp [drop, lookup]
  | cons e rest ih =>
      obtain ⟨k', v'⟩ := e
      rw [List.map_cons, List.nodup_cons] at hl
      by_cases h : k' = k
      · subst h
        -- the key is not met again, so nothing more is dropped
        have hrest : drop k' rest = rest := by
          refine List.filter_eq_self.2 fun x hx => ?_
          refine decide_eq_true fun hk => hl.1 ?_
          exact List.mem_map.2 ⟨x, hx, hk⟩
        have hdrop : drop k' ((k', v') :: rest) = rest := by
          rw [← hrest]
          simp [drop]
        rw [hdrop, lookup, if_pos rfl, List.map_cons, List.sum_cons]
        simp only [Option.elim_some]
        ring
      · have hdrop : drop k ((k', v') :: rest) = (k', v') :: drop k rest := by
          simp [drop, h]
        have := ih hl.2
        rw [hdrop, lookup, if_neg h, List.map_cons, List.sum_cons,
          List.map_cons, List.sum_cons]
        linarith

end Pairs

-- ========================================================== operations

/-- Summing after a change of values is summing what they became. -/
theorem sum_map (g : κ → β → γ) (t : Table κ β) (f : κ → γ → Rat) :
    (t.map g).sum f = t.sum fun k v => f k (g k v) := by
  unfold sum map
  rw [List.map_map]
  rfl

/-- A sum of values that does not look at the keys. -/
theorem sum_values (t : Table κ β) (f : β → Rat) :
    (t.values.map f).sum = t.sum fun _ v => f v := by
  unfold sum values
  rw [List.map_map]
  rfl

theorem sum_add (t : Table κ β) (f g : κ → β → Rat) :
    (t.sum fun k v => f k v + g k v) = t.sum f + t.sum g := by
  unfold sum
  induction t.entries with
  | nil => simp
  | cons e rest ih =>
      simp only [List.map_cons, List.sum_cons]
      linarith

theorem sum_mul (t : Table κ β) (f : κ → β → Rat) (k : Rat) :
    (t.sum fun s v => f s v * k) = t.sum f * k := by
  unfold sum
  induction t.entries with
  | nil => simp
  | cons e rest ih =>
      simp only [List.map_cons, List.sum_cons]
      linarith

variable [DecidableEq κ]

theorem sum_insert (t : Table κ β) (k : κ) (v : β) (f : κ → β → Rat) :
    (t.insert k v).sum f + (t.get? k).elim 0 (f k) = t.sum f + f k v :=
  sum_write f k v t.entries

theorem sum_erase (t : Table κ β) (k : κ) (f : κ → β → Rat) :
    (t.erase k).sum f + (t.get? k).elim 0 (f k) = t.sum f :=
  sum_drop f k t.nodup

-- ========================================================== comparison

theorem sum_le_sum {t : Table κ β} {f g : κ → β → Rat}
    (h : ∀ k v, t.get? k = some v → f k v ≤ g k v) :
    t.sum f ≤ t.sum g := by
  have key : ∀ l : List (κ × β), (∀ e ∈ l, f e.1 e.2 ≤ g e.1 e.2) →
      (l.map fun e => f e.1 e.2).sum ≤ (l.map fun e => g e.1 e.2).sum := by
    intro l
    induction l with
    | nil => intro _; exact le_refl _
    | cons e rest ih =>
        intro hl
        have h₁ := hl e (List.mem_cons_self ..)
        have h₂ := ih fun x hx => hl x (List.mem_cons_of_mem _ hx)
        simp only [List.map_cons, List.sum_cons]
        linarith
  exact key t.entries fun e he => h e.1 e.2 (get?_eq_some_iff.2 he)

theorem sum_congr {t : Table κ β} {f g : κ → β → Rat}
    (h : ∀ k v, t.get? k = some v → f k v = g k v) : t.sum f = t.sum g :=
  le_antisymm (sum_le_sum fun k v hk => le_of_eq (h k v hk))
    (sum_le_sum fun k v hk => le_of_eq (h k v hk).symm)

theorem sum_eq_zero {t : Table κ β} {f : κ → β → Rat}
    (h : ∀ k v, t.get? k = some v → f k v = 0) : t.sum f = 0 := by
  rw [sum_congr h]
  simpa using t.sum_mul (fun _ _ => (0 : Rat)) 0

/-- A sum to which one key alone contributes. -/
theorem sum_single (t : Table κ β) (k : κ) {f : κ → β → Rat}
    (h : ∀ k' v, t.get? k' = some v → k' ≠ k → f k' v = 0) :
    t.sum f = (t.get? k).elim 0 (f k) := by
  have hrest : (t.erase k).sum f = 0 := by
    refine sum_eq_zero fun k' v hv => ?_
    rw [get?_erase] at hv
    by_cases hk : k = k'
    · rw [if_pos hk] at hv
      cases hv
    · rw [if_neg hk] at hv
      exact h k' v hv (Ne.symm hk)
  have := t.sum_erase k f
  rw [hrest] at this
  linarith

end LinearConstraints.Table
