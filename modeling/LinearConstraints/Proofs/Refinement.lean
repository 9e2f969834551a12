/-
Refinement: the rows of a solver say what its registered constraints say,
symbol by symbol.

Every registered constraint has a defining equation over the symbols of
its variables and those of its own (`Registration.Equation`), read off its
relation and strength alone. The rows of the tableau are another system
over the same symbols: however often they have been pivoted, solved and
substituted, their solutions are those of the defining equations, and they
mention no symbol that stands for nothing.

# Why no stray symbol is left

A symbol that is bound to no variable and belongs to no constraint occurs
in no defining equation, so it may take any value in a solution. A row
that mentioned it, or defined it, would fix that value.

Main statement: `Reachable.solves_iff_equations`.
-/
import LinearConstraints.Proofs.Target

namespace LinearConstraints

/-- The defining equation of a constraint whose expression exceeds its
target by `excess`: a slack or a dummy takes what is missing to zero, an
error what is too much. -/
def Registration.Equation (g : Registration Rat) (excess : Rat)
    (v : Symbol → Rat) : Prop :=
  let marker := v g.footprint.marker
  match g.constraint.relation, g.footprint.companion with
  | .lessOrEqual, none => excess + marker = 0
  | .lessOrEqual, some error => excess + marker - v error = 0
  | .greaterOrEqual, none => excess - marker = 0
  | .greaterOrEqual, some error => excess - marker + v error = 0
  | .equal, none => excess + marker = 0
  | .equal, some below => excess - marker + v below = 0

/-- The equation of a constraint holds where the constraint is
balanced. -/
theorem Registration.equation_iff_balanced {g : Registration Rat}
    (h : g.constraint.Fits g.footprint) (value : Variable → Rat)
    (goal : Rat) (v : Symbol → Rat) :
    g.Equation (g.constraint.expression.valueUnder value - goal) v
      ↔ g.Balanced value goal v := by
  unfold Equation Balanced Constraint.sign Footprint.gap
  generalize g.constraint.expression.valueUnder value = excess
  cases h with
  | dummy relation required _ companion =>
      rw [relation, companion, required]
      simp only [if_true, Option.elim_none]
      constructor <;> intro he <;> linarith
  | slack relation _ _ companion =>
      rw [companion]
      cases hrel : g.constraint.relation with
      | equal => exact absurd hrel relation
      | lessOrEqual =>
          simp only [Option.elim_none]
          constructor <;> intro he <;> linarith
      | greaterOrEqual =>
          simp only [Option.elim_none]
          constructor <;> intro he <;> linarith
  | errors y relation optional _ companion =>
      rw [relation, companion, optional]
      simp only [Bool.false_eq_true, if_false, Option.elim_some]
      constructor <;> intro he <;> linarith
  | slackened y relation _ _ companion =>
      rw [companion]
      cases hrel : g.constraint.relation with
      | equal => exact absurd hrel relation
      | lessOrEqual =>
          simp only [Option.elim_some]
          constructor <;> intro he <;> linarith
      | greaterOrEqual =>
          simp only [Option.elim_some]
          constructor <;> intro he <;> linarith

namespace Solver

open Function (update)

variable {s : Solver Rat} {goal : Nat → Rat} {x : Symbol}

-- ======================================================== stray symbols

/-- The symbol is the external symbol of a variable, or one of the two of
a registered constraint. -/
def InUse (s : Solver Rat) (x : Symbol) : Prop :=
  (x.isExternal = true ∧ ∃ y, s.symbol? y = some x)
    ∨ ∃ i g, s.registry.get? i = some g ∧ g.footprint.Mentions x

/-- Moving a symbol that is not in use leaves all constraints balanced. -/
theorem balances_update_of_not_inUse (hw : s.WellBound)
    (hx : ¬ s.InUse x) (v : Symbol → Rat) (a : Rat) :
    s.Balances goal (update v x a) ↔ s.Balances goal v := by
  have hread : s.read (update v x a) = s.read v := by
    funext y
    unfold read
    cases hy : s.symbol? y with
    | none => rfl
    | some z =>
        refine Function.update_of_ne ?_ a v
        intro heq
        subst heq
        exact hx (Or.inl ⟨hw.external hy, y, hy⟩)
  unfold Balances Registration.Balanced
  refine forall_congr' fun i => forall_congr' fun g =>
    forall_congr' fun hi => ?_
  have hgap : g.footprint.gap (update v x a) = g.footprint.gap v := by
    refine Footprint.gap_congr fun y hy => Function.update_of_ne ?_ a v
    intro heq
    subst heq
    exact hx (Or.inr ⟨i, g, hi, hy⟩)
  rw [hread, hgap]

/-- The rows of a consistent solver define and mention only symbols that
are in use. -/
theorem Consistent.inUse_of_row (h : s.Consistent goal) {b : Symbol}
    {r : Row Rat} (hr : s.tableau.rows.get? b = some r)
    (hx : x = b ∨ x ∈ r.symbols) : s.InUse x := by
  by_contra hno
  -- the solution, with one unit more of the stray symbol
  let v := s.tableau.solution
  have hv : s.tableau.Solves v := h.canonical.solves_solution
  have hmoved : s.tableau.Solves (update v x (v x + 1)) :=
    (h.solves _).2 ((balances_update_of_not_inUse h.wellBound hno v _).2
      ((h.solves v).1 hv))
  have hrow := hmoved b r hr
  rw [Row.value_update, add_sub_cancel_left, mul_one, ← hv b r hr] at hrow
  rcases hx with rfl | hx
  · rw [Function.update_self, h.canonical.nonbasic (.row hr) ⟨r, hr⟩] at hrow
    linarith
  · have hne := (h.canonical.reduced (.row hr)).mem_symbols_iff.1 hx
    have hbx : b ≠ x := by
      intro heq
      subst heq
      exact hne (h.canonical.nonbasic (.row hr) ⟨r, hr⟩)
    rw [Function.update_of_ne hbx] at hrow
    exact hne (by linarith)

-- ========================================================== refinement

/-- States reached without taking the constraint of an edit out behind its
back are consistent, with the targets as goals. -/
theorem Reachable.coherent
    (h : Reachable (fun s c => Command.Built c ∧ s.KeepsEdits c) s) :
    ∃ goal, s.Consistent goal ∧ s.Coherent goal :=
  h.induction (P := Coherent) (fun _ _ may => may.1) (coherent_empty _)
    fun may hc ht hcoh => ht.coherent hc hcoh may.2

/-- In every state reached by commands that take the constraint of an edit
out only with the edit, the symbols of each constraint are those that its
kind calls for, the rows define and mention external symbols and the
symbols of registered constraints only, and a valuation solves the rows
exactly if it satisfies the defining equation of every registered
constraint. -/
theorem Reachable.solves_iff_equations
    (h : Reachable (fun s c => Command.Built c ∧ s.KeepsEdits c) s) :
    (∀ i g, s.registry.get? i = some g → g.constraint.Fits g.footprint)
      ∧ (∀ b r, s.tableau.rows.get? b = some r →
          ∀ x, x = b ∨ x ∈ r.symbols → s.InUse x)
      ∧ ∀ v, s.tableau.Solves v ↔ ∀ i g, s.registry.get? i = some g →
          g.Equation (s.excess (s.read v) g.constraint) v := by
  obtain ⟨goal, hcons, hcoh⟩ := h.coherent
  refine ⟨fun i g hi => (hcons.registered hi).fits,
    fun b r hr x hx => hcons.inUse_of_row hr hx, fun v => ?_⟩
  rw [hcons.solves]
  refine forall_congr' fun i => forall_congr' fun g =>
    forall_congr' fun hi => ?_
  have hreg := hcons.registered hi
  unfold excess
  rw [hcoh.target_eq hi hreg.key]
  exact (Registration.equation_iff_balanced hreg.fits _ _ v).symm

/-- The rows of the slider that has been pulled past its end: at their
solution its edit constraint is two short of the value suggested, which the
error below takes up. -/
theorem pulledSlider_solves_iff_equations :
    Reachable (fun s c => Command.Built c ∧ s.KeepsEdits c) pulledSlider
      ∧ (∀ v, pulledSlider.tableau.Solves v
        ↔ ∀ i g, pulledSlider.registry.get? i = some g →
            g.Equation (pulledSlider.excess (pulledSlider.read v)
              g.constraint) v)
      ∧ ∀ g ∈ pulledSlider.registry.get? 3,
          pulledSlider.excess (pulledSlider.read pulledSlider.tableau.solution)
            g.constraint = -2 := by
  have hreach : Reachable (fun s c => Command.Built c ∧ s.KeepsEdits c)
      pulledSlider :=
    reachable_pulledSlider.mono fun _ _ may => ⟨may.1, may.2.2⟩
  obtain ⟨-, -, hiff⟩ := Reachable.solves_iff_equations hreach
  exact ⟨hreach, hiff, by decide +kernel⟩

end Solver

end LinearConstraints
