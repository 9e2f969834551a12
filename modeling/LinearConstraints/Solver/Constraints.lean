/-
Adding and removing constraints.

A constraint is added by making its equation part of the tableau and
lowering the objective again; it is removed by taking its weight out of
the objective and its equation out of the tableau. A refused constraint
leaves the tableau as it was, up to symbols and bindings that have been
made for it.
-/
import LinearConstraints.Solver.Equation
import LinearConstraints.Tableau.Feasibility
import LinearConstraints.Tableau.Removal

namespace LinearConstraints.Solver

variable {α : Type} [Scalar α]

/-- Gives the outcome of work on the tableau to the solver. -/
def onTableau (s : Solver α) {ρ : Type}
    (o : Outcome (Tableau α) Tableau.Failure ρ) :
    Outcome (Solver α) (Error α) ρ :=
  ⟨{ s with tableau := o.state }, o.result.mapError .failure⟩

omit [Scalar α] in
/-- Work on the tableau fails as the tableau does. -/
theorem error_of_onTableau {s : Solver α} {ρ : Type}
    {o : Outcome (Tableau α) Tableau.Failure ρ} {e : Error α}
    (h : (s.onTableau o).result = .error e) :
    ∃ f, o.result = .error f ∧ e = .failure f := by
  unfold onTableau at h
  dsimp only at h
  cases ho : o.result with
  | ok x => rw [ho] at h; cases h
  | error f =>
      rw [ho] at h
      exact ⟨f, rfl, (Except.error.inj h).symm⟩

omit [Scalar α] in
/-- A failure of work on the tableau is one of the tableau. -/
theorem failure_of_onTableau_iff {s : Solver α} {ρ : Type}
    {o : Outcome (Tableau α) Tableau.Failure ρ} {f : Tableau.Failure} :
    (s.onTableau o).result = .error (.failure f) ↔ o.result = .error f := by
  constructor
  · intro h
    obtain ⟨f', hf', heq⟩ := error_of_onTableau h
    injection heq with heq
    exact heq ▸ hf'
  · intro ho
    unfold onTableau
    dsimp only
    rw [ho]
    rfl

omit [Scalar α] in
theorem ok_of_onTableau {s : Solver α} {ρ : Type}
    {o : Outcome (Tableau α) Tableau.Failure ρ} {x : ρ}
    (h : (s.onTableau o).result = .ok x) : o.result = .ok x := by
  unfold onTableau at h
  dsimp only at h
  cases ho : o.result with
  | ok y => rw [ho] at h; exact congrArg _ (Except.ok.inj h)
  | error f => rw [ho] at h; cases h

/-- Brings the tableau to the minimum of its objective. -/
def settle (budget : Nat) (s : Solver α) :
    Outcome (Solver α) (Error α) Unit :=
  s.onTableau (s.tableau.minimise budget .main)

/-- The refusal of a constraint, naming all that are registered. -/
def unsatisfiable (s : Solver α) (c : Constraint α) : Error α :=
  .unsatisfiable c s.constraints

-- ============================================================= adding

/-- Solves an equation for a symbol, which becomes basic. -/
def define (s : Solver α) (r : Row α) (x : Symbol) :
    Outcome (Solver α) (Error α) Unit :=
  match r.isolate? x with
  | some d => .ok { s with tableau := s.tableau.install x d } ()
  | none => .error s (.failure .absentSymbol)

/-- Makes a new equation part of the tableau. A row of dummies alone is
redundant at zero, and then its marker becomes basic; at any other value
it contradicts the required equalities. -/
def enter (budget : Nat) (s : Solver α) (c : Constraint α) (r : Row α)
    (f : Footprint) : Outcome (Solver α) (Error α) Unit :=
  match pivotFor? r f with
  | some x => s.define r x
  | none =>
      if r.onlyDummies then
        if Scalar.nearZero r.constant then s.define r f.marker
        else .error s (s.unsatisfiable c)
      else
        let (art, s) := s.fresh .slack
        (s.onTableau (s.tableau.adjoin budget art r)).andThen
          fun s feasible =>
            if feasible then .ok s () else .error s (s.unsatisfiable c)

/-- Registers a constraint and minimises. Answers with its symbols. -/
def register (budget : Nat) (s : Solver α) (c : Constraint α) :
    Outcome (Solver α) (Error α) Footprint :=
  if s.contains c then .error s (.duplicateConstraint c)
  else
    let (r, f, s) := s.equation c
    (s.enter budget c r f).andThen fun s _ =>
      let s := { s with registry := s.registry.insert c.id ⟨c, f⟩ }
      (s.settle budget).andThen fun s _ => .ok s f

/-- Adds a constraint. -/
def add (budget : Nat) (s : Solver α) (c : Constraint α) :
    Outcome (Solver α) (Error α) Unit :=
  (s.register budget c).andThen fun s _ => .ok s ()

/-- Adds constraints one by one, up to the first that fails. -/
def addAll (budget : Nat) :
    Solver α → List (Constraint α) → Outcome (Solver α) (Error α) Unit
  | s, [] => .ok s ()
  | s, c :: cs =>
      (s.add budget c).andThen fun s _ =>
        addAll budget s cs

-- =========================================================== removing

/-- Takes the weight of a constraint's error out of the objective. -/
def forgive (s : Solver α) (g : Registration α) : Solver α :=
  match g.footprint.error? with
  | none => s
  | some error =>
      let t := s.tableau
      let objective :=
        t.addSymbol t.objective error (-g.constraint.strength.value)
      { s with tableau := { t with objective } }

/-- Unregisters a constraint and minimises what remains. -/
def remove (budget : Nat) (s : Solver α) (c : Constraint α) :
    Outcome (Solver α) (Error α) Unit :=
  match s.registry.get? c.id with
  | none => .error s (.unknownConstraint c)
  | some g =>
      let s := { s with registry := s.registry.erase c.id }
      let s := s.forgive g
      match s.tableau.dropMarker g.footprint.marker with
      | .error f => .error s (.failure f)
      | .ok t => { s with tableau := t }.settle budget

end LinearConstraints.Solver
