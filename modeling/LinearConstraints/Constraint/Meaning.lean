/-
What constraints mean under a valuation of the variables, and by how much
a number misses a relation to zero.
-/
import LinearConstraints.Constraint.Basic

namespace LinearConstraints

variable {α : Type} [Scalar α]

namespace Relation

/-- A number stands in the relation to zero. -/
def Holds (r : Relation) (x : α) : Prop :=
  match r with
  | lessOrEqual => x ≤ 0
  | equal => x = 0
  | greaterOrEqual => 0 ≤ x

/-- The distance of a number from those that stand in the relation. -/
def violation (r : Relation) (x : α) : α :=
  match r with
  | lessOrEqual => if 0 < x then x else 0
  | equal => if x < 0 then -x else x
  | greaterOrEqual => if x < 0 then -x else 0

end Relation

namespace Constraint

/-- The valuation satisfies the constraint. -/
def Holds (c : Constraint α) (value : Variable → α) : Prop :=
  c.relation.Holds (c.expression.valueUnder value)

end Constraint

end LinearConstraints
