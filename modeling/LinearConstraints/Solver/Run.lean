/-
Runs: the states that commands lead to.
-/
import LinearConstraints.Solver.Command

namespace LinearConstraints

variable {α : Type} [Scalar α]

/-- An operation on a solver came to an end, with or without an error. -/
def Outcome.Returned {σ ρ : Type}
    (o : Outcome σ (Solver.Error α) ρ) : Prop :=
  ∀ e, o.result = .error e → e.isFatal = false

namespace Solver

/-- The states reached from the empty solver by commands that come to an
end, each of them allowed in the state in which it is given. -/
inductive Reachable (allowed : Solver α → Command α → Prop) :
    Solver α → Prop where
  | empty : Reachable allowed .empty
  | step {s : Solver α} {c : Command α} (budget : Nat)
      (before : Reachable allowed s) (may : allowed s c)
      (ends : (s.perform budget c).Returned) :
      Reachable allowed (s.perform budget c).state

/-- Carries out commands one after the other, whatever each answers; gives
the solver at the end and the answers. -/
def run (budget : Nat) :
    Solver α → List (Command α) →
      Solver α × List (Except (Error α) Unit)
  | s, [] => (s, [])
  | s, c :: cs =>
      let o := s.perform budget c
      let rest := run budget o.state cs
      (rest.1, o.result :: rest.2)

end Solver

end LinearConstraints
