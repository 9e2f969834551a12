/-
Equations: how a constraint enters the tableau.

An inequality becomes an equation by a slack symbol, and a constraint
that may be violated gets error symbols that take up the violation and
carry its strength in the objective. Variables that are basic are
replaced by their definitions, so that the equation mentions none of the
symbols that the tableau defines.
-/
import LinearConstraints.Solver.Basic

namespace LinearConstraints.Solver

variable {α : Type} [Scalar α]

-- ============================================================ symbols

/-- A new symbol of some kind. -/
def fresh (s : Solver α) (kind : Symbol.Kind) : Symbol × Solver α :=
  (⟨kind, s.nextId⟩, { s with nextId := s.nextId + 1 })

/-- The symbol of a variable, new at its first use. -/
def symbolOf (s : Solver α) (v : Variable) : Symbol × Solver α :=
  match s.bindings.get? v with
  | some b => (b.symbol, s)
  | none =>
      let (x, s) := s.fresh .external
      (x, { s with bindings := s.bindings.insert v ⟨x, 0⟩ })

/-- Adds the weight of an error symbol to the objective. -/
def penalise (s : Solver α) (error : Symbol) (weight : α) : Solver α :=
  let t := s.tableau
  { s with
    tableau := { t with objective := t.objective.addCell error weight } }

-- ========================================================== left side

/-- Adds a term to a row. A coefficient near zero adds nothing. -/
def addTerm (acc : Row α × Solver α) (t : Term α) : Row α × Solver α :=
  if Scalar.nearZero t.coefficient then acc
  else
    let (r, s) := acc
    let (x, s) := s.symbolOf t.var
    (s.tableau.addSymbol r x t.coefficient, s)

/-- The row of an expression. -/
def rowOf (s : Solver α) (e : Expression α) : Row α × Solver α :=
  e.terms.foldl addTerm (.ofConstant e.constant, s)

-- ============================================================ closing

/-- Closes an inequality: `sign` is one for at most, minus one for at
least. The slack takes what is missing to zero; unless the constraint is
required, an error takes what is too much. -/
def closeInequality (s : Solver α) (r : Row α) (sign : α)
    (strength : Strength α) : Row α × Footprint × Solver α :=
  let (slack, s) := s.fresh .slack
  let r := r.addCell slack sign
  if strength.isRequired then (r, ⟨slack, none⟩, s)
  else
    let (error, s) := s.fresh .error
    (r.addCell error (-sign), ⟨slack, some error⟩,
      s.penalise error strength.value)

/-- Closes an equality: a required one is marked by a dummy, any other is
the difference of two errors. -/
def closeEquality (s : Solver α) (r : Row α) (strength : Strength α) :
    Row α × Footprint × Solver α :=
  if strength.isRequired then
    let (dummy, s) := s.fresh .dummy
    (r.addCell dummy 1, ⟨dummy, none⟩, s)
  else
    let (above, s) := s.fresh .error
    let (below, s) := s.fresh .error
    let s := s.penalise above strength.value
    ((r.addCell above (-1)).addCell below 1, ⟨above, some below⟩,
      s.penalise below strength.value)

/-- The row of a constraint, to be set to zero, and its symbols. The
constant of the row is not negative. -/
def equation (s : Solver α) (c : Constraint α) :
    Row α × Footprint × Solver α :=
  let (r, s) := s.rowOf c.expression
  let (r, f, s) :=
    match c.relation with
    | .lessOrEqual => s.closeInequality r 1 c.strength
    | .greaterOrEqual => s.closeInequality r (-1) c.strength
    | .equal => s.closeEquality r c.strength
  (if r.constant < 0 then r.negated else r, f, s)

/-- The symbol of a new row that can be made basic at once: the first
external one, else a slack or error symbol of the constraint whose
coefficient is negative, so that its value in the solution is not. -/
def pivotFor? (r : Row α) (f : Footprint) : Option Symbol :=
  (r.symbols.find? Symbol.isExternal).or
    ((f.marker :: f.companion.toList).find? fun x =>
      x.isPivotable && decide (r.coefficient x < 0))

end LinearConstraints.Solver
