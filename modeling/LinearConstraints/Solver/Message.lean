/-
What a solver says about its errors.
-/
import LinearConstraints.Constraint.Text
import LinearConstraints.Solver.Basic

namespace LinearConstraints

/-- The text of a failure on the tableau. -/
def Tableau.Failure.message : Tableau.Failure → String
  | unboundedObjective =>
      "Internal solver error: the objective is unbounded"
  | noMarkerLeavingRow =>
      "Internal solver error: no leaving row found for constraint marker"
  | noDualEnteringSymbol =>
      "Internal solver error: no entering symbol found for infeasible row"
  | absentSymbol =>
      "Internal solver error: a row does not mention the symbol it defines"
  | budgetSpent => "Internal solver error: the budget of pivots is spent"

namespace Solver.Error

/-- The error lies in the solver and not in how it was used. -/
def isInternal {α : Type} : Error α → Bool
  | failure _ => true
  | _ => false

/-- The text of an error. -/
def message : Error Float → String
  | duplicateConstraint c =>
      "Constraint is already in the solver: " ++ c.text
  | unknownConstraint c => "Constraint is not in the solver: " ++ c.text
  | unsatisfiable c conflicting =>
      "Unable to satisfy required constraint " ++ c.text
        ++ " (conflicts with one of " ++ conflicting.length.repr
        ++ " registered constraints)"
  | duplicateEdit v => "Variable is already an edit variable: " ++ v.text
  | unknownEdit v => "Variable is not an edit variable: " ++ v.text
  | requiredEdit => "Edit variables cannot have required strength"
  | failure f => f.message

end Solver.Error

end LinearConstraints
