/-
Edit variables: variables whose value is suggested from outside.

An edit variable is tied to the value suggested last by a constraint of
its own. A new suggestion moves the constants of the tableau and leaves
its objective minimal, so that only the rows that have turned negative
need to be repaired.
-/
import LinearConstraints.Solver.Constraints
import LinearConstraints.Tableau.Dual
import LinearConstraints.Tableau.Target

namespace LinearConstraints.Solver

variable {α : Type} [Scalar α]

/-- Makes a variable an edit variable. Its constraint, with the given
number, ties it to zero until a value is suggested. -/
def addEdit (budget : Nat) (s : Solver α) (id : Nat) (v : Variable)
    (strength : Strength α) : Outcome (Solver α) (Error α) Unit :=
  if s.isEdited v then .error s (.duplicateEdit v)
  else if strength.clip.isRequired then .error s .requiredEdit
  else
    let e := EditConstraint.new id v strength
    (s.register budget e.constraint).andThen fun s f =>
      .ok { s with edits := s.edits.insert v ⟨e, f⟩ } ()

/-- Makes an edit variable an ordinary one. -/
def removeEdit (budget : Nat) (s : Solver α) (v : Variable) :
    Outcome (Solver α) (Error α) Unit :=
  match s.edits.get? v with
  | none => .error s (.unknownEdit v)
  | some e =>
      (s.remove budget e.constraint.constraint).andThen
        fun s _ => .ok { s with edits := s.edits.erase v } ()

/-- Suggests a value for an edit variable and restores feasibility. -/
def suggest (budget : Nat) (s : Solver α) (v : Variable) (x : α) :
    Outcome (Solver α) (Error α) Unit :=
  match s.edits.get? v with
  | none => .error s (.unknownEdit v)
  | some e =>
      let delta := x - e.constraint.target
      let t := s.tableau.moveTarget e.footprint delta
      let e := { e with constraint := e.constraint.suggest x }
      let s := { s with edits := s.edits.insert v e }
      s.onTableau (t.restore budget)

end LinearConstraints.Solver
