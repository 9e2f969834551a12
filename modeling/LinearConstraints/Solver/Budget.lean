/-
Budgets: an operation that ends within its budget ends the same way under
every larger one.

The budget bounds the loops of an operation and has no other effect. So
"the operation returns" means that some budget is enough, and then the
outcome does not depend on which.

Main statement: `perform_mono`.
-/
import LinearConstraints.Solver.Run

namespace LinearConstraints

variable {α : Type} [Scalar α]

-- ======================================================== the tableau

namespace Tableau

theorem minimise_mono {n m : Nat} {goal : Goal} {t : Tableau α}
    (hnm : n ≤ m)
    (h : (t.minimise n goal).result ≠ .error .budgetSpent) :
    t.minimise m goal = t.minimise n goal :=
  iterate_mono hnm h

theorem restore_mono {n m : Nat} {t : Tableau α} (hnm : n ≤ m)
    (h : (t.restore n).result ≠ .error .budgetSpent) :
    t.restore m = t.restore n :=
  iterate_mono hnm h

theorem searchWith_mono {n m : Nat} {t : Tableau α} {art : Symbol}
    {r : Row α} (hnm : n ≤ m)
    (h : (t.searchWith n art r).result ≠ .error .budgetSpent) :
    t.searchWith m art r = t.searchWith n art r := by
  unfold searchWith at h ⊢
  rw [minimise_mono hnm (Outcome.result_ne_error_of_andThen h)]

/-- An adjunction ends as its search does. -/
theorem result_adjoin (n : Nat) (t : Tableau α) (art : Symbol)
    (r : Row α) :
    (t.adjoin n art r).result = (t.searchWith n art r).result := by
  unfold adjoin
  dsimp only
  split <;> rfl

theorem adjoin_mono {n m : Nat} {t : Tableau α} {art : Symbol}
    {r : Row α} (hnm : n ≤ m)
    (h : (t.adjoin n art r).result ≠ .error .budgetSpent) :
    t.adjoin m art r = t.adjoin n art r := by
  rw [result_adjoin] at h
  unfold adjoin
  rw [searchWith_mono hnm h]

end Tableau

-- ========================================================= the solver

namespace Solver

omit [Scalar α] in
/-- Work on the tableau ends within its budget if the operation does. -/
theorem result_ne_spent_of_onTableau {ρ : Type} {s : Solver α}
    {o : Outcome (Tableau α) Tableau.Failure ρ}
    (h : (s.onTableau o).result ≠ .error (.failure .budgetSpent)) :
    o.result ≠ .error .budgetSpent :=
  mt failure_of_onTableau_iff.2 h

variable {n m : Nat} {s : Solver α}

theorem settle_mono (hnm : n ≤ m)
    (h : (s.settle n).result ≠ .error (.failure .budgetSpent)) :
    s.settle m = s.settle n := by
  unfold settle at h ⊢
  rw [Tableau.minimise_mono hnm (result_ne_spent_of_onTableau h)]

theorem enter_mono {c : Constraint α} {r : Row α} {f : Footprint}
    (hnm : n ≤ m)
    (h : (s.enter n c r f).result ≠ .error (.failure .budgetSpent)) :
    s.enter m c r f = s.enter n c r f := by
  unfold enter at h ⊢
  cases hp : pivotFor? r f with
  | some x => rfl
  | none =>
      rw [hp] at h
      dsimp only at h ⊢
      by_cases hd : r.onlyDummies = true
      · rw [if_pos hd, if_pos hd]
      · rw [if_neg hd] at h
        rw [if_neg hd, if_neg hd]
        have hs := result_ne_spent_of_onTableau
          (Outcome.result_ne_error_of_andThen h)
        rw [Tableau.adjoin_mono hnm hs]

theorem register_mono {c : Constraint α} (hnm : n ≤ m)
    (h : (s.register n c).result ≠ .error (.failure .budgetSpent)) :
    s.register m c = s.register n c := by
  unfold register at h ⊢
  by_cases hc : s.contains c = true
  · rw [if_pos hc, if_pos hc]
  · rw [if_neg hc] at h
    rw [if_neg hc, if_neg hc]
    dsimp only at h ⊢
    rw [enter_mono hnm (Outcome.result_ne_error_of_andThen h)]
    refine Outcome.andThen_congr fun u hu => ?_
    rw [Outcome.andThen_of_ok hu] at h
    rw [settle_mono hnm (Outcome.result_ne_error_of_andThen h)]

theorem add_mono {c : Constraint α} (hnm : n ≤ m)
    (h : (s.add n c).result ≠ .error (.failure .budgetSpent)) :
    s.add m c = s.add n c := by
  unfold add at h ⊢
  rw [register_mono hnm (Outcome.result_ne_error_of_andThen h)]

theorem remove_mono {c : Constraint α} (hnm : n ≤ m)
    (h : (s.remove n c).result ≠ .error (.failure .budgetSpent)) :
    s.remove m c = s.remove n c := by
  unfold remove at h ⊢
  cases hg : s.registry.get? c.id with
  | none => rfl
  | some g =>
      rw [hg] at h
      dsimp only at h ⊢
      split at h
      · rfl
      · exact settle_mono hnm h

theorem addEdit_mono {id : Nat} {v : Variable} {strength : Strength α}
    (hnm : n ≤ m)
    (h : (s.addEdit n id v strength).result
      ≠ .error (.failure .budgetSpent)) :
    s.addEdit m id v strength = s.addEdit n id v strength := by
  unfold addEdit at h ⊢
  by_cases hv : s.isEdited v = true
  · rw [if_pos hv, if_pos hv]
  · rw [if_neg hv] at h
    rw [if_neg hv, if_neg hv]
    by_cases hr : strength.clip.isRequired = true
    · rw [if_pos hr, if_pos hr]
    · rw [if_neg hr] at h
      rw [if_neg hr, if_neg hr]
      dsimp only at h ⊢
      rw [register_mono hnm (Outcome.result_ne_error_of_andThen h)]

theorem removeEdit_mono {v : Variable} (hnm : n ≤ m)
    (h : (s.removeEdit n v).result ≠ .error (.failure .budgetSpent)) :
    s.removeEdit m v = s.removeEdit n v := by
  unfold removeEdit at h ⊢
  cases he : s.edits.get? v with
  | none => rfl
  | some e =>
      rw [he] at h
      dsimp only at h ⊢
      rw [remove_mono hnm (Outcome.result_ne_error_of_andThen h)]

theorem suggest_mono {v : Variable} {x : α} (hnm : n ≤ m)
    (h : (s.suggest n v x).result ≠ .error (.failure .budgetSpent)) :
    s.suggest m v x = s.suggest n v x := by
  unfold suggest at h ⊢
  cases he : s.edits.get? v with
  | none => rfl
  | some e =>
      rw [he] at h
      dsimp only at h ⊢
      rw [Tableau.restore_mono hnm (result_ne_spent_of_onTableau h)]

/-- A command that ends within its budget ends the same way under every
larger one. -/
theorem perform_mono {c : Command α} (hnm : n ≤ m)
    (h : (s.perform n c).result ≠ .error (.failure .budgetSpent)) :
    s.perform m c = s.perform n c := by
  cases c with
  | add c => exact add_mono hnm h
  | remove c => exact remove_mono hnm h
  | addEdit id v strength => exact addEdit_mono hnm h
  | removeEdit v => exact removeEdit_mono hnm h
  | suggest v x => exact suggest_mono hnm h
  | refresh => rfl
  | reset => rfl

end Solver

end LinearConstraints
