import LinearConstraints.Expression.Formula
import LinearConstraints.Scalar.Rational
import LinearConstraints.Solver.Budget
import LinearConstraints.Solver.Meaning
import LinearConstraints.Solver.Message
import LinearConstraints.Proofs.Safety
import LinearConstraints.Proofs.Satisfiability
import LinearConstraints.Proofs.Optimality
import LinearConstraints.Proofs.Redundancy
import LinearConstraints.Proofs.Ownership
import LinearConstraints.Proofs.Refinement
import LinearConstraints.Proofs.Likeness
import LinearConstraints.Proofs.Lockstep
import LinearConstraints.Proofs.Refusal
import LinearConstraints.Proofs.Presence
import LinearConstraints.Proofs.Stalling
import LinearConstraints.Proofs.Termination
import LinearConstraints.Proofs.Checked
import LinearConstraints.Proofs.Independence
import LinearConstraints.Proofs.Residue
import LinearConstraints.Proofs.RoundTrip
import LinearConstraints.Proofs.Acceptance
import LinearConstraints.Proofs.Contract
import LinearConstraints.Proofs.Arrears
import LinearConstraints.Proofs.Opposition
import LinearConstraints.Proofs.Confinement
import LinearConstraints.Proofs.Tally
import LinearConstraints.Proofs.RowEquations
import LinearConstraints.Proofs.Formulas
import LinearConstraints.Proofs.Specks
import LinearConstraints.Proofs.Priorities
