/-
Primal simplex: lowers an objective over a feasible tableau.

Each step takes the first symbol whose coefficient in the objective is
negative and lets it grow from zero until the first basic symbol would
turn negative, which then leaves the basis. The search ends when no
coefficient is negative.

Main statement: `primalStep_eq_iff`, what a step does and when.
-/
import LinearConstraints.Outcome
import LinearConstraints.Scalar.Ratio
import LinearConstraints.Tableau.Basic

namespace LinearConstraints.Tableau

variable {α : Type} [Scalar α]

/-- Which of the two objectives is minimised. -/
inductive Goal where
  | main
  | auxiliary
  deriving DecidableEq, Repr

/-- The row that a goal minimises. -/
def goalRow? (t : Tableau α) : Goal → Option (Row α)
  | .main => some t.objective
  | .auxiliary => t.auxiliary

/-- The first symbol that lowers an objective as it grows. Dummies stay
zero. -/
def entering? (objective : Row α) : Option Symbol :=
  (objective.cells.entries.find? fun c =>
    !c.1.isDummy && decide (c.2 < 0)).map Prod.fst

/-- The rows that a growing symbol drives towards zero, each with the
value of the symbol at which it gets there. External symbols may be
negative, so their rows set no limit. -/
def limits (t : Tableau α) (entering : Symbol) : List (Symbol × α) :=
  t.rows.entries.filterMap fun e =>
    if e.1.isExternal then none
    else
      let c := e.2.coefficient entering
      if c < 0 then some (e.1, -e.2.constant / c) else none

/-- The first row to reach zero as a symbol grows. -/
def leaving? (t : Tableau α) (entering : Symbol) : Option Symbol :=
  Scalar.leastRatio (t.limits entering)

/-- One step towards the goal's minimum. -/
def primalStep (goal : Goal) (t : Tableau α) :
    Step (Tableau α) Failure :=
  match (t.goalRow? goal).bind entering? with
  | none => .stop t (.ok ())
  | some entering =>
      match t.leaving? entering with
      | none => .stop t (.error .unboundedObjective)
      | some leaving =>
          match t.exchange? leaving entering with
          | none => .stop t (.error .absentSymbol)
          | some t' => .next t'

/-- Minimises the goal, within a budget of pivots. -/
def minimise (budget : Nat) (goal : Goal) (t : Tableau α) :
    Outcome (Tableau α) Failure Unit :=
  iterate (primalStep goal) .budgetSpent budget t

-- ==================================================== entering symbols

/-- The symbol that enters has a cell, is no dummy and lowers the
objective. -/
theorem cell_of_entering? {o : Row α} {s : Symbol}
    (h : entering? o = some s) :
    ∃ c, o.cells.get? s = some c ∧ s.isDummy = false ∧ c < 0 := by
  obtain ⟨⟨s', c⟩, hfind, rfl⟩ := Option.map_eq_some_iff.1 h
  have htest := List.find?_some hfind
  simp only [Bool.and_eq_true, Bool.not_eq_true', decide_eq_true_eq]
    at htest
  exact ⟨c, Table.get?_eq_some_iff.2 (List.mem_of_find?_eq_some hfind),
    htest⟩

theorem entering?_eq_none_iff {o : Row α} :
    entering? o = none ↔ ∀ x c, o.cells.get? x = some c →
      x.isDummy = false → ¬ c < 0 := by
  unfold entering?
  rw [Option.map_eq_none_iff, List.find?_eq_none]
  constructor
  · intro h x c hx hdummy hc
    apply h (x, c) (Table.get?_eq_some_iff.1 hx)
    simp [hdummy, hc]
  · intro h e hmem htest
    simp only [Bool.and_eq_true, Bool.not_eq_true', decide_eq_true_eq]
      at htest
    exact h e.1 e.2 (Table.get?_eq_some_iff.2 hmem) htest.1 htest.2

-- =============================================================== steps

/-- What a step towards the goal's minimum does, and when. -/
inductive PrimalStep (goal : Goal) (t : Tableau α) :
    Step (Tableau α) Failure → Prop where
  /-- No symbol lowers the objective, or there is none. -/
  | lowest (enters : (t.goalRow? goal).bind entering? = none) :
      PrimalStep goal t (.stop t (.ok ()))
  /-- No row limits the symbol that enters. -/
  | unbounded {o : Row α} {s : Symbol}
      (objective : t.goalRow? goal = some o)
      (enters : entering? o = some s) (leaves : t.leaving? s = none) :
      PrimalStep goal t (.stop t (.error .unboundedObjective))
  /-- The row that limits the symbol cannot be solved for it. -/
  | absent {o : Row α} {s b : Symbol}
      (objective : t.goalRow? goal = some o)
      (enters : entering? o = some s) (leaves : t.leaving? s = some b)
      (exchange : t.exchange? b s = none) :
      PrimalStep goal t (.stop t (.error .absentSymbol))
  | pivot {o : Row α} {s b : Symbol} {t' : Tableau α}
      (objective : t.goalRow? goal = some o)
      (enters : entering? o = some s) (leaves : t.leaving? s = some b)
      (exchange : t.exchange? b s = some t') :
      PrimalStep goal t (.next t')

theorem primalStep_eq_iff {goal : Goal} {t : Tableau α}
    {x : Step (Tableau α) Failure} :
    primalStep goal t = x ↔ PrimalStep goal t x := by
  constructor
  · rintro rfl
    unfold primalStep
    split
    case h_1 hs => exact .lowest hs
    case h_2 s hs =>
      obtain ⟨o, ho, hs⟩ := Option.bind_eq_some_iff.1 hs
      split
      case h_1 hb => exact .unbounded ho hs hb
      case h_2 b hb =>
        split
        case h_1 hex => exact .absent ho hs hb hex
        case h_2 hex => exact .pivot ho hs hb hex
  · intro h
    cases h with
    | lowest enters => simp [primalStep, enters]
    | unbounded objective enters leaves =>
        simp [primalStep, objective, enters, leaves]
    | absent objective enters leaves exchange
    | pivot objective enters leaves exchange =>
        simp [primalStep, objective, enters, leaves, exchange]

/-- A step that goes on pivots on a symbol that lowers the objective. -/
theorem pivot_of_primalStep {goal : Goal} {t t' : Tableau α}
    (h : primalStep goal t = .next t') :
    ∃ o s c b, t.goalRow? goal = some o ∧ o.cells.get? s = some c
      ∧ s.isDummy = false ∧ c < 0 ∧ t.exchange? b s = some t' := by
  cases primalStep_eq_iff.1 h with
  | pivot objective enters _ exchange =>
      obtain ⟨c, hc, hdummy, hneg⟩ := cell_of_entering? enters
      exact ⟨_, _, c, _, objective, hc, hdummy, hneg, exchange⟩

/-- A step that stops leaves the tableau as it is. -/
theorem state_of_primalStep {goal : Goal} {t t' : Tableau α}
    {r : Except Failure Unit} (h : primalStep goal t = .stop t' r) :
    t' = t := by
  cases primalStep_eq_iff.1 h <;> rfl

end LinearConstraints.Tableau
