/-
Solvers: a tableau together with what its symbols stand for.

A solver registers constraints and remembers, for each, the symbols that
its equation was given; it binds callers' variables to external symbols,
and keeps the edit variables with the value suggested last. Values are
read from a copy that is made on request, so that a caller sees one
consistent solution.
-/
import LinearConstraints.Constraint.Basic
import LinearConstraints.Tableau.Basic

namespace LinearConstraints

/-- A registered constraint and its symbols. -/
structure Registration (α : Type) where
  constraint : Constraint α
  footprint : Footprint

/-- The external symbol of a variable, and the value it had when values
were last copied. -/
structure Binding (α : Type) where
  symbol : Symbol
  value : α

/-- An edit variable: its constraint, with the value that the tableau has
been moved to, and the symbols of that constraint. -/
structure Edit (α : Type) where
  constraint : EditConstraint α
  footprint : Footprint

/-- The state of a solver. -/
structure Solver (α : Type) where
  /-- The number of the next symbol. -/
  nextId : Nat
  /-- The registered constraints by number, in order of arrival. -/
  registry : Table Nat (Registration α)
  tableau : Tableau α
  /-- The variables seen so far. -/
  bindings : Table Variable (Binding α)
  /-- The edit variables, in order of arrival. -/
  edits : Table Variable (Edit α)

/-- Why an operation on a solver failed. -/
inductive Solver.Error (α : Type) where
  | duplicateConstraint (c : Constraint α)
  | unknownConstraint (c : Constraint α)
  /-- The constraint contradicts the registered ones. -/
  | unsatisfiable (c : Constraint α) (conflicting : List (Constraint α))
  | duplicateEdit (v : Variable)
  | unknownEdit (v : Variable)
  /-- An edit variable was to be given required strength. -/
  | requiredEdit
  /-- The tableau could not be brought to its minimum. -/
  | failure (f : Tableau.Failure)

/-- The operation did not come to an end: what it was to do makes no
sense, or its budget was spent. -/
def Solver.Error.isFatal {α : Type} : Solver.Error α → Bool
  | failure .absentSymbol => true
  | failure .budgetSpent => true
  | _ => false

namespace Solver

variable {α : Type} [Scalar α]

/-- A solver without constraints. -/
def empty : Solver α := ⟨0, .empty, .empty, .empty, .empty⟩

instance : Inhabited (Solver α) := ⟨empty⟩

-- ============================================================ reading

/-- The registered constraints, in order of arrival. -/
def constraints (s : Solver α) : List (Constraint α) :=
  s.registry.values.map Registration.constraint

/-- The constraint is registered. -/
def contains (s : Solver α) (c : Constraint α) : Bool :=
  s.registry.contains c.id

/-- The variable is an edit variable. -/
def isEdited (s : Solver α) (v : Variable) : Bool := s.edits.contains v

/-- The edit constraint of an edit variable. -/
def edit? (s : Solver α) (v : Variable) :
    Option (EditConstraint α) :=
  (s.edits.get? v).map Edit.constraint

/-- The value of a variable when values were last copied; zero for one
that the solver has not seen. -/
def value (s : Solver α) (v : Variable) : α :=
  match s.bindings.get? v with
  | some b => b.value
  | none => 0

/-- The value of an expression over the values last copied. -/
def valueOf (s : Solver α) (e : Expression α) : α := e.valueUnder s.value

/-- Copies the solution of the tableau into the values of the
variables. -/
def refresh (s : Solver α) : Solver α :=
  { s with
    bindings := s.bindings.map fun _ b =>
      { b with value := s.tableau.solution b.symbol } }

end Solver

end LinearConstraints
