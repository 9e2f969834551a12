/-
What a solver is asked for: the valuations that it may choose from, and
how good each of them is.
-/
import LinearConstraints.Constraint.Meaning
import LinearConstraints.Solver.Basic

namespace LinearConstraints.Solver

variable {α : Type} [Scalar α]

/-- The number that the expression of a constraint is compared with: the
value suggested last if the constraint is that of an edit variable, zero
for any other. -/
def target (s : Solver α) (c : Constraint α) : α :=
  match s.edits.values.find? fun e => e.constraint.constraint.id == c.id with
  | some e => e.constraint.target
  | none => 0

/-- By how much a constraint's expression exceeds its target. -/
def excess (s : Solver α) (value : Variable → α) (c : Constraint α) : α :=
  c.expression.valueUnder value - s.target c

/-- The valuation satisfies every registered constraint that is
required. -/
def Admits (s : Solver α) (value : Variable → α) : Prop :=
  ∀ c ∈ s.constraints, c.strength.isRequired = true →
    c.relation.Holds (s.excess value c)

/-- The violations of the other registered constraints, each weighted by
its strength. -/
def cost (s : Solver α) (value : Variable → α) : α :=
  ((s.constraints.filter fun c => !c.strength.isRequired).map fun c =>
    c.strength.value * c.relation.violation (s.excess value c)).sum

/-- No admitted valuation costs less. -/
def IsOptimal (s : Solver α) (value : Variable → α) : Prop :=
  s.Admits value ∧ ∀ other, s.Admits other → s.cost value ≤ s.cost other

end LinearConstraints.Solver
