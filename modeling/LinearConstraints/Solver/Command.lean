/-
Commands: the operations on a solver as data, and runs of them.
-/
import LinearConstraints.Solver.Edits

namespace LinearConstraints

/-- An operation that changes a solver. -/
inductive Command (α : Type) where
  | add (c : Constraint α)
  | remove (c : Constraint α)
  /-- Makes `v` an edit variable whose constraint has the number `id`. -/
  | addEdit (id : Nat) (v : Variable) (strength : Strength α)
  | removeEdit (v : Variable)
  | suggest (v : Variable) (x : α)
  /-- Copies the solution into the values of the variables. -/
  | refresh
  | reset

namespace Solver

variable {α : Type} [Scalar α]

/-- A budget for callers that do not want to choose one. Only a loop that
comes back to where it was takes so many steps on a tableau that fits in
memory. -/
def ampleBudget : Nat := 1000000

/-- Carries out a command, each of its loops within the budget. -/
def perform (budget : Nat) (s : Solver α) :
    Command α → Outcome (Solver α) (Error α) Unit
  | .add c => s.add budget c
  | .remove c => s.remove budget c
  | .addEdit id v strength => s.addEdit budget id v strength
  | .removeEdit v => s.removeEdit budget v
  | .suggest v x => s.suggest budget v x
  | .refresh => .ok s.refresh ()
  | .reset => .ok empty ()

end Solver

end LinearConstraints
