/-
Dual simplex: makes a tableau feasible again while its objective stays
minimal.

The rows to be repaired are taken from the stack. A row that is negative
leaves the basis in exchange for the symbol that raises it at the least
cost to the objective; a row that has been repaired meanwhile, or is no
longer there, is passed over.

Main statement: `dualStep_eq_iff`, what a step does and when.
-/
import LinearConstraints.Outcome
import LinearConstraints.Scalar.Ratio
import LinearConstraints.Tableau.Basic

namespace LinearConstraints.Tableau

variable {α : Type} [Scalar α]

/-- The symbols that raise a row as they grow, each with its cost per
unit gained. Dummies stay zero. -/
def costs (t : Tableau α) (r : Row α) : List (Symbol × α) :=
  r.cells.entries.filterMap fun c =>
    if !c.1.isDummy && decide (0 < c.2) then
      some (c.1, t.objective.coefficient c.1 / c.2)
    else none

/-- The first symbol that raises a row at the least cost. -/
def dualEntering? (t : Tableau α) (r : Row α) : Option Symbol :=
  Scalar.leastRatio (t.costs r)

/-- Takes one symbol from the stack and repairs its row. -/
def dualStep (t : Tableau α) : Step (Tableau α) Failure :=
  match t.infeasible with
  | [] => .stop t (.ok ())
  | leaving :: rest =>
      let t := { t with infeasible := rest }
      match t.rows.get? leaving with
      | none => .next t
      | some r =>
          if r.constant < 0 then
            match t.dualEntering? r with
            | none => .stop t (.error .noDualEnteringSymbol)
            | some entering =>
                match t.exchange? leaving entering with
                | none => .stop t (.error .absentSymbol)
                | some t' => .next t'
          else .next t

/-- Repairs the rows on the stack until it is empty, within a budget of
steps. -/
def restore (budget : Nat) (t : Tableau α) :
    Outcome (Tableau α) Failure Unit :=
  iterate dualStep .budgetSpent budget t

-- =============================================================== steps

/-- What a step of the repair does, and when. -/
inductive DualStep (t : Tableau α) : Step (Tableau α) Failure → Prop where
  | done (stack : t.infeasible = []) : DualStep t (.stop t (.ok ()))
  /-- A row that is not negative, or no longer there. -/
  | pass {b : Symbol} {rest : List Symbol}
      (stack : t.infeasible = b :: rest)
      (sound : ∀ r, t.rows.get? b = some r → ¬ r.constant < 0) :
      DualStep t (.next { t with infeasible := rest })
  /-- No symbol raises the row. -/
  | stuck {b : Symbol} {rest : List Symbol} {r : Row α}
      (stack : t.infeasible = b :: rest) (row : t.rows.get? b = some r)
      (negative : r.constant < 0) (enters : t.dualEntering? r = none) :
      DualStep t (.stop { t with infeasible := rest }
        (.error .noDualEnteringSymbol))
  /-- The row cannot be solved for the symbol that raises it. -/
  | absent {b s : Symbol} {rest : List Symbol} {r : Row α}
      (stack : t.infeasible = b :: rest) (row : t.rows.get? b = some r)
      (negative : r.constant < 0) (enters : t.dualEntering? r = some s)
      (exchange : { t with infeasible := rest }.exchange? b s = none) :
      DualStep t (.stop { t with infeasible := rest } (.error .absentSymbol))
  | pivot {b s : Symbol} {rest : List Symbol} {r : Row α} {t' : Tableau α}
      (stack : t.infeasible = b :: rest) (row : t.rows.get? b = some r)
      (negative : r.constant < 0) (enters : t.dualEntering? r = some s)
      (exchange : { t with infeasible := rest }.exchange? b s = some t') :
      DualStep t (.next t')

theorem dualStep_eq_iff {t : Tableau α} {x : Step (Tableau α) Failure} :
    dualStep t = x ↔ DualStep t x := by
  constructor
  · rintro rfl
    unfold dualStep
    split
    case h_1 hstack => exact .done hstack
    case h_2 b rest hstack =>
      dsimp only
      split
      case h_1 hnone =>
        refine .pass hstack fun r hr => ?_
        rw [hnone] at hr
        cases hr
      case h_2 r hr =>
        split
        case isFalse hsound =>
          refine .pass hstack fun r' hr' => ?_
          exact Option.some.inj (hr.symm.trans hr') ▸ hsound
        case isTrue hneg =>
          split
          case h_1 hs => exact .stuck hstack hr hneg hs
          case h_2 s hs =>
            split
            case h_1 hex => exact .absent hstack hr hneg hs hex
            case h_2 hex => exact .pivot hstack hr hneg hs hex
  · -- The symbol to enter does not depend on the stack.
    have hentering : ∀ (l : List Symbol) (r : Row α),
        { t with infeasible := l }.dualEntering? r = t.dualEntering? r :=
      fun _ _ => rfl
    intro h
    cases h with
    | done stack => simp [dualStep, stack]
    | @pass b _ stack sound =>
        cases hb : t.rows.get? b with
        | none => simp [dualStep, stack, hb]
        | some r => simp [dualStep, stack, hb, sound r hb]
    | stuck stack row negative enters =>
        simp [dualStep, stack, row, negative, hentering, enters]
    | absent stack row negative enters exchange
    | pivot stack row negative enters exchange =>
        simp [dualStep, stack, row, negative, hentering, enters, exchange]

/-- A step that stops leaves all but the stack as it is. -/
theorem stack_of_dualStep {t t' : Tableau α} {r : Except Failure Unit}
    (h : dualStep t = .stop t' r) :
    ∃ stack, t' = { t with infeasible := stack } := by
  cases dualStep_eq_iff.1 h with
  | done => exact ⟨_, rfl⟩
  | stuck | absent => exact ⟨_, rfl⟩

end LinearConstraints.Tableau
