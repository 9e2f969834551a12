/-
The written form of constraints and edit constraints.
-/
import LinearConstraints.Constraint.Basic
import LinearConstraints.Expression.Text

namespace LinearConstraints

/-- What a constraint says (its label, if it has one) and its strength. -/
def Constraint.text (c : Constraint Float) : String :=
  let statement :=
    match c.label with
    | some label => label
    | none => c.expression.text ++ " " ++ c.relation.symbol ++ " 0"
  statement ++ " | strength: " ++ c.strength.text

/-- The variable, the value it is tied to and the strength. -/
def EditConstraint.text (e : EditConstraint Float) : String :=
  "edit " ++ e.var.text ++ " == " ++ Decimal.ofDouble e.target
    ++ " | strength: " ++ e.constraint.strength.text

end LinearConstraints
