/-
Solves: the rows that commands solve and store.

A row enters a tableau in one way: an equation is solved for one of its
symbols, and what comes of it is stored as the definition of that symbol.
The equation is a new constraint's, or it is the definition of a symbol
that leaves the basis, read as an equation. Here the solves of a command
are read off its run, in their order, each with the tableau that has the
new row. The searches and repairs are followed step by step, with the
program's own steps; a search that fails is undone and leaves no row.

What every step of a loop does to a tableau and its solves, the loop does
to all of them (`track_loop`).

Main statements: `primalStep_tracks` and `dualStep_tracks`, that the
solve of a step is the one that its pivot makes; `track_loop`.
-/
import LinearConstraints.Proofs.Tally

namespace LinearConstraints

variable {α : Type}

/-- An equation that is solved for a symbol, and the tableau in which the
solved row has just been stored. -/
structure Solve (α : Type) where
  equation : Row α
  symbol : Symbol
  after : Tableau α

-- ============================================================== loops

section Loops

variable {σ ε τ : Type}

/-- What the steps of a loop leave behind, for those that go on. -/
def trail (step : σ → Step σ ε) (leaves : σ → List τ) : ℕ → σ → List τ
  | 0, _ => []
  | budget + 1, s =>
      match step s with
      | .stop _ _ => []
      | .next s' => leaves s ++ trail step leaves budget s'

/-- What the steps of a loop keep between a state and all that has been
left behind so far, the loop keeps. -/
theorem track_loop {step : σ → Step σ ε} {leaves : σ → List τ} {spent : ε}
    {P : σ → List τ → Prop}
    (hnext : ∀ s s' l, P s l → step s = .next s' → P s' (l ++ leaves s))
    (hstop : ∀ s s' r l, P s l → step s = .stop s' r → P s' l) :
    ∀ (budget : ℕ) (s : σ) (l : List τ), P s l →
      P (iterate step spent budget s).state
        (l ++ trail step leaves budget s) := by
  intro budget
  induction budget with
  | zero =>
      intro s l hs
      rw [trail, List.append_nil]
      exact hs
  | succ n ih =>
      intro s l hs
      cases hstep : step s with
      | stop s' r =>
          rw [iterate_of_stop hstep, trail, hstep, List.append_nil]
          exact hstop s s' r l hs hstep
      | next s' =>
          rw [iterate_of_next hstep, trail, hstep, ← List.append_assoc]
          exact ih s' _ (hnext s s' l hs hstep)

end Loops

variable [Scalar α]

-- ============================================================ tableaux

namespace Tableau

variable {t t' : Tableau α} {goal : Goal}

/-- The solve of an exchange: the row of the symbol that leaves, as an
equation, for the symbol that enters. -/
def exchangeSolves (t : Tableau α) (leaving entering : Symbol) :
    List (Solve α) :=
  match t.rows.get? leaving, t.exchange? leaving entering with
  | some r, some t' => [⟨r.addCell leaving (-1), entering, t'⟩]
  | _, _ => []

/-- The solve of a step towards a minimum. -/
def primalSolves (goal : Goal) (t : Tableau α) : List (Solve α) :=
  match (t.goalRow? goal).bind entering? with
  | none => []
  | some entering =>
      match t.leaving? entering with
      | none => []
      | some leaving => t.exchangeSolves leaving entering

/-- The solve of a step of the repair; there is none if the row is passed
over. -/
def dualSolves (t : Tableau α) : List (Solve α) :=
  match t.infeasible with
  | [] => []
  | leaving :: rest =>
      let t := { t with infeasible := rest }
      match t.rows.get? leaving with
      | none => []
      | some r =>
          if r.constant < 0 then
            match t.dualEntering? r with
            | none => []
            | some entering => t.exchangeSolves leaving entering
          else []

def minimiseSolves (budget : ℕ) (goal : Goal) (t : Tableau α) :
    List (Solve α) :=
  trail (primalStep goal) (primalSolves goal) budget t

def restoreSolves (budget : ℕ) (t : Tableau α) : List (Solve α) :=
  trail dualStep dualSolves budget t

/-- The solve by which an artificial symbol leaves the basis, if it has to
be exchanged. -/
def retireSolves (t : Tableau α) (art : Symbol) : List (Solve α) :=
  match t.rows.get? art with
  | none => []
  | some r =>
      if r.cells.isEmpty then []
      else
        match r.firstPivotable? with
        | none => []
        | some entering => t.exchangeSolves art entering

/-- The solves of a search that succeeds. -/
def adjoinSolves (budget : ℕ) (t : Tableau α) (art : Symbol) (r : Row α) :
    List (Solve α) :=
  match (t.adjoin budget art r).result with
  | .ok true =>
      let u := t.withArtificial art r
      u.minimiseSolves budget .auxiliary
        ++ ({ (u.minimise budget .auxiliary).state with
          auxiliary := none } : Tableau α).retireSolves art
  | _ => []

-- What the lists say of the steps: a step either leaves rows and objective
-- alone, or is the exchange whose solve is listed.

/-- An exchange solves the row of the symbol that leaves. -/
theorem exchangeSolves_of_exchange? {leaving entering : Symbol}
    (h : t.exchange? leaving entering = some t') :
    ∃ r d, t.rows.get? leaving = some r
      ∧ (r.addCell leaving (-1)).isolate? entering = some d
      ∧ t' = (t.without leaving).install entering d
      ∧ t.exchangeSolves leaving entering
        = [⟨r.addCell leaving (-1), entering, t'⟩] := by
  obtain ⟨r, d, hr, hd, ht'⟩ := exchange?_eq_some_iff.1 h
  refine ⟨r, d, hr, hd, ht', ?_⟩
  unfold exchangeSolves
  rw [hr, h]

/-- An exchange that cannot be made solves nothing. -/
theorem exchangeSolves_of_none {leaving entering : Symbol}
    (h : t.exchange? leaving entering = none) :
    t.exchangeSolves leaving entering = [] := by
  unfold exchangeSolves
  rw [h]
  cases t.rows.get? leaving <;> rfl

/-- The solve of a step towards a minimum is that of its exchange. -/
theorem primalStep_tracks (h : primalStep goal t = .next t') :
    ∃ b s, t.exchange? b s = some t'
      ∧ t.primalSolves goal = t.exchangeSolves b s := by
  unfold primalSolves
  cases primalStep_eq_iff.1 h with
  | @pivot o s b _ objective enters leaves exchange =>
      rw [objective, Option.bind_some, enters]
      dsimp only
      rw [leaves]
      exact ⟨b, s, exchange, rfl⟩

/-- A step of the repair solves nothing and passes over a row, or its
solve is that of its exchange. -/
theorem dualStep_tracks (h : dualStep t = .next t') :
    ∃ rest, t' = { t with infeasible := rest } ∧ t.dualSolves = []
      ∨ ∃ b s, ({ t with infeasible := rest } : Tableau α).exchange? b s
          = some t'
        ∧ t.dualSolves
          = ({ t with infeasible := rest } : Tableau α).exchangeSolves
            b s := by
  unfold dualSolves
  cases dualStep_eq_iff.1 h with
  | @pass b rest stack sound =>
      refine ⟨rest, Or.inl ⟨rfl, ?_⟩⟩
      rw [stack]
      dsimp only
      cases hr : t.rows.get? b with
      | none => rfl
      | some r => exact if_neg (sound r hr)
  | @pivot b s rest r _ stack row negative enters exchange =>
      have henters : ({ t with infeasible := rest } : Tableau
          α).dualEntering? r = some s := enters
      refine ⟨rest, Or.inr ⟨b, s, exchange, ?_⟩⟩
      simp only [stack, row, if_pos negative, henters]

end Tableau

-- ============================================================= solvers

namespace Solver

/-- The solve of an equation for a symbol that becomes basic at once. -/
def defineSolves (s : Solver α) (r : Row α) (x : Symbol) :
    List (Solve α) :=
  match r.isolate? x with
  | some d => [⟨r, x, s.tableau.install x d⟩]
  | none => []

def enterSolves (budget : ℕ) (s : Solver α) (r : Row α) (f : Footprint) :
    List (Solve α) :=
  match pivotFor? r f with
  | some x => s.defineSolves r x
  | none =>
      if r.onlyDummies then
        if Scalar.nearZero r.constant then s.defineSolves r f.marker
        else []
      else s.tableau.adjoinSolves budget (s.fresh .slack).1 r

/-- The solves of adding a constraint: those by which its equation enters,
and those of the search for a minimum that follows. -/
def registerSolves (budget : ℕ) (s : Solver α) (c : Constraint α) :
    List (Solve α) :=
  if s.contains c then []
  else
    let (r, f, s) := s.equation c
    let o := s.enter budget c r f
    s.enterSolves budget r f ++
      match o.result with
      | .ok _ => o.state.tableau.minimiseSolves budget .main
      | .error _ => []

/-- The solves of removing a constraint. The row that its marker replaces
is solved as well, but is not stored. -/
def removeSolves (budget : ℕ) (s : Solver α) (c : Constraint α) :
    List (Solve α) :=
  match s.registry.get? c.id with
  | none => []
  | some g =>
      let s := { s with registry := s.registry.erase c.id }
      match (s.forgive g).tableau.dropMarker g.footprint.marker with
      | .error _ => []
      | .ok t => t.minimiseSolves budget .main

def addEditSolves (budget : ℕ) (s : Solver α) (id : ℕ) (v : Variable)
    (strength : Strength α) : List (Solve α) :=
  if s.isEdited v then []
  else if strength.clip.isRequired then []
  else s.registerSolves budget (EditConstraint.new id v strength).constraint

def removeEditSolves (budget : ℕ) (s : Solver α) (v : Variable) :
    List (Solve α) :=
  match s.edits.get? v with
  | none => []
  | some e => s.removeSolves budget e.constraint.constraint

def suggestSolves (budget : ℕ) (s : Solver α) (v : Variable) (x : α) :
    List (Solve α) :=
  match s.edits.get? v with
  | none => []
  | some e =>
      (s.tableau.moveTarget e.footprint
        (x - e.constraint.target)).restoreSolves budget

/-- The solves of a command, in their order. -/
def solves (budget : ℕ) (s : Solver α) : Command α → List (Solve α)
  | .add c => s.registerSolves budget c
  | .remove c => s.removeSolves budget c
  | .addEdit id v strength => s.addEditSolves budget id v strength
  | .removeEdit v => s.removeEditSolves budget v
  | .suggest v x => s.suggestSolves budget v x
  | .refresh => []
  | .reset => []

/-- The states that commands lead to, whether or not they come to an end,
each with all solves since the solver was last empty. -/
inductive Recorded : Solver α → List (Solve α) → Prop where
  | empty : Recorded .empty []
  | step {s : Solver α} {l : List (Solve α)} (budget : ℕ) (c : Command α)
      (before : Recorded s l) (hc : c ≠ .reset) :
      Recorded (s.perform budget c).state (l ++ s.solves budget c)
  | reset {s : Solver α} {l : List (Solve α)} (before : Recorded s l) :
      Recorded .empty []

end Solver

end LinearConstraints
