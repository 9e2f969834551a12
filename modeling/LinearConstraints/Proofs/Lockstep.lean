/-
Lockstep: like solvers give the same answers and stay alike.

Two solvers that differ only in the numbers of their symbols carry out a
command step for step together: the equations that they pose are the same
but for the numbers, so is the symbol that each step picks, and so is the
error if there is one. An error names constraints and variables and never
a symbol, so the answers are not only alike but equal.

Main statements: `Alike.perform`, one command; `Alike.run`, any number of
them; `Reachable.numbered`: every solver is like itself, which says that
it holds no symbol that it has not given out.
-/
import LinearConstraints.Proofs.Likeness
import LinearConstraints.Solver.Run

namespace LinearConstraints

open Equiv (Perm)

/-- The state that a computation gives, or the old one with its error. -/
def Outcome.replacing {σ ε : Type} (s : σ) :
    Except ε σ → Outcome σ ε Unit
  | .ok s' => .ok s' ()
  | .error e => .error s e

theorem Outcome.replacing_smul {σ ε : Type} [SMul (Perm ℕ) σ]
    (ρ : Perm ℕ) (s : σ) (r : Except ε σ) :
    Outcome.replacing (ρ • s) (r.map (ρ • ·)) = ρ • Outcome.replacing s r :=
  by cases r <;> rfl

namespace Solver

variable {α : Type} [Scalar α] {s t : Solver α} {X Y Z : Type}
  [MulAction (Perm ℕ) X] [MulAction (Perm ℕ) Y] [MulAction (Perm ℕ) Z]
  {x y : X} (budget : ℕ)

-- ======================================================= the equation

/-- The symbol of a new row that can be made basic at once is found under
any names. -/
theorem pivotFor?_smul (ρ : Perm ℕ) (r : Row α) (f : Footprint) :
    pivotFor? (ρ • r) (ρ • f) = (pivotFor? r f).map (ρ • ·) := by
  have hown : (ρ • f).marker :: (ρ • f).companion.toList
      = (f.marker :: f.companion.toList).map (ρ • ·) := by
    rw [Footprint.companion_smul]
    cases f.companion <;> rfl
  unfold pivotFor?
  rw [Row.symbols_smul, find?_smul ρ (fun _ => rfl), hown, List.find?_map]
  have htest : ((fun x : Symbol =>
        x.isPivotable && decide ((ρ • r).coefficient x < 0)) ∘ (ρ • ·))
      = fun x => x.isPivotable && decide (r.coefficient x < 0) :=
    funext fun x => by simp
  rw [htest]
  cases r.symbols.find? Symbol.isExternal <;> rfl

namespace Alike

/-- The weight of an error symbol among the data. -/
theorem penalise {e e' : Symbol} (h : Alike s t (e, x) (e', y)) (w : α) :
    Alike (s.penalise e w) (t.penalise e' w) (e, x) (e', y) :=
  setTableau <| h.withTableau.map
    (fun p : Tableau α × Symbol × X =>
      ({ p.1 with objective := p.1.objective.addCell p.2.1 w }, p.2))
    fun ρ p => by
      dsimp only [Prod.smul_fst, Prod.smul_snd]
      rw [Tableau.objective_smul, Row.addCell_smul]
      rfl

theorem addTerm {r r' : Row α} (h : Alike s t (r, x) (r', y))
    (term : Term α) :
    Alike (Solver.addTerm (r, s) term).2 (Solver.addTerm (r', t) term).2
      ((Solver.addTerm (r, s) term).1, x)
      ((Solver.addTerm (r', t) term).1, y) := by
  unfold Solver.addTerm
  split
  · exact h
  · exact (h.symbolOf term.var).withTableau.map
      (fun p : Tableau α × Symbol × Row α × X =>
        (p.1.addSymbol p.2.2.1 p.2.1 term.coefficient, p.2.2.2))
      fun ρ p => Prod.ext (Tableau.addSymbol_smul ρ p.1 p.2.1 p.2.2.1 _) rfl

theorem rowOf (h : Alike s t x y) (e : Expression α) :
    Alike (s.rowOf e).2 (t.rowOf e).2 ((s.rowOf e).1, x)
      ((t.rowOf e).1, y) := by
  have key : ∀ (terms : List (Term α)) {s t : Solver α} {r r' : Row α},
      Alike s t (r, x) (r', y) →
        Alike (terms.foldl Solver.addTerm (r, s)).2
          (terms.foldl Solver.addTerm (r', t)).2
          ((terms.foldl Solver.addTerm (r, s)).1, x)
          ((terms.foldl Solver.addTerm (r', t)).1, y) := by
    intro terms
    induction terms with
    | nil => exact fun h => h
    | cons term terms ih => exact fun h => ih (h.addTerm term)
  exact key e.terms <|
    h.map (fun x => (Row.ofConstant e.constant, x)) fun _ _ => rfl

private theorem closeInequality {r r' : Row α}
    (h : Alike s t (r, x) (r', y)) (sign : α) (strength : Strength α) :
    Alike (s.closeInequality r sign strength).2.2
      (t.closeInequality r' sign strength).2.2
      ((s.closeInequality r sign strength).1,
        (s.closeInequality r sign strength).2.1, x)
      ((t.closeInequality r' sign strength).1,
        (t.closeInequality r' sign strength).2.1, y) := by
  have hslack := h.fresh .slack
  unfold Solver.closeInequality
  by_cases hreq : strength.isRequired = true
  · simp only [if_pos hreq]
    exact hslack.map
      (fun p : Symbol × Row α × X =>
        (p.2.1.addCell p.1 sign, Footprint.mk p.1 none, p.2.2))
      fun ρ p => Prod.ext (Row.addCell_smul ρ p.2.1 p.1 sign) rfl
  · simp only [if_neg hreq]
    exact ((hslack.fresh .error).penalise strength.value).map
      (fun p : Symbol × Symbol × Row α × X =>
        ((p.2.2.1.addCell p.2.1 sign).addCell p.1 (-sign),
          Footprint.mk p.2.1 (some p.1), p.2.2.2))
      fun ρ p => Prod.ext (by simp only [Prod.smul_fst, Prod.smul_snd,
        Row.addCell_smul]) rfl

private theorem closeEquality {r r' : Row α}
    (h : Alike s t (r, x) (r', y)) (strength : Strength α) :
    Alike (s.closeEquality r strength).2.2
      (t.closeEquality r' strength).2.2
      ((s.closeEquality r strength).1,
        (s.closeEquality r strength).2.1, x)
      ((t.closeEquality r' strength).1,
        (t.closeEquality r' strength).2.1, y) := by
  unfold Solver.closeEquality
  by_cases hreq : strength.isRequired = true
  · simp only [if_pos hreq]
    exact (h.fresh .dummy).map
      (fun p : Symbol × Row α × X =>
        (p.2.1.addCell p.1 1, Footprint.mk p.1 none, p.2.2))
      fun ρ p => Prod.ext (Row.addCell_smul ρ p.2.1 p.1 1) rfl
  · simp only [if_neg hreq]
    have hboth := ((h.fresh .error).fresh .error).map
      (fun p : Symbol × Symbol × Row α × X => (p.2.1, p.1, p.2.2))
      fun _ _ => rfl
    have habove := (hboth.penalise strength.value).map
      (fun p : Symbol × Symbol × Row α × X => (p.2.1, p.1, p.2.2))
      fun _ _ => rfl
    exact (habove.penalise strength.value).map
      (fun p : Symbol × Symbol × Row α × X =>
        ((p.2.2.1.addCell p.2.1 (-1)).addCell p.1 1,
          Footprint.mk p.2.1 (some p.1), p.2.2.2))
      fun ρ p => Prod.ext (by simp only [Prod.smul_fst, Prod.smul_snd,
        Row.addCell_smul]) rfl

/-- Turning a row so that its constant is not negative. -/
private theorem turned {r r' : Row α} (h : Alike s t (r, x) (r', y)) :
    Alike s t (if r.constant < 0 then r.negated else r, x)
      (if r'.constant < 0 then r'.negated else r', y) := by
  refine h.map (fun p : Row α × X =>
    (if p.1.constant < 0 then p.1.negated else p.1, p.2)) fun ρ p =>
      Prod.ext ?_ rfl
  show (if p.1.constant < 0 then (ρ • p.1).negated else ρ • p.1)
    = ρ • if p.1.constant < 0 then p.1.negated else p.1
  rw [Row.negated_smul, apply_ite (ρ • ·)]

/-- Posing the same constraint gives the same equation. -/
theorem equation (h : Alike s t x y) (c : Constraint α) :
    Alike (s.equation c).2.2 (t.equation c).2.2
      ((s.equation c).1, (s.equation c).2.1, x)
      ((t.equation c).1, (t.equation c).2.1, y) := by
  have hrow := h.rowOf c.expression
  unfold Solver.equation
  cases c.relation with
  | lessOrEqual => exact (hrow.closeInequality 1 c.strength).turned
  | greaterOrEqual => exact (hrow.closeInequality (-1) c.strength).turned
  | equal => exact (hrow.closeEquality c.strength).turned

end Alike

-- ============================================================ outcomes

/-- Two outcomes agree: both end with an answer or both with the same
error, and they leave like solvers behind. -/
inductive Agrees (x y : X) :
    Outcome (Solver α) (Error α) Z → Outcome (Solver α) (Error α) Z → Prop
    where
  | ok {s t : Solver α} {z z' : Z} (h : Alike s t (z, x) (z', y)) :
      Agrees x y ⟨s, .ok z⟩ ⟨t, .ok z'⟩
  | error {s t : Solver α} (e : Error α) (h : Alike s t x y) :
      Agrees x y ⟨s, .error e⟩ ⟨t, .error e⟩

namespace Agrees

variable {o o' : Outcome (Solver α) (Error α) Z}

/-- What is made of the data without looking at numbers. -/
theorem map (h : Agrees x y o o') (f : X → Y)
    (hf : ∀ (ρ : Perm ℕ) x, f (ρ • x) = ρ • f x) :
    Agrees (f x) (f y) o o' := by
  cases h with
  | ok h =>
      exact .ok (h.map (fun p => (p.1, f p.2)) fun ρ p =>
        Prod.ext rfl (hf ρ p.2))
  | error e h => exact .error e (h.map f hf)

/-- Going on in like ways. -/
theorem andThen (h : Agrees x y o o')
    {f f' : Solver α → Z → Outcome (Solver α) (Error α) Y}
    (hf : ∀ {s t : Solver α} {z z' : Z}, Alike s t (z, x) (z', y) →
      Agrees x y (f s z) (f' t z')) :
    Agrees x y (o.andThen f) (o'.andThen f') := by
  cases h with
  | ok h => exact hf h
  | error e h => exact .error e h

theorem state (h : Agrees x y o o') : Alike o.state o'.state x y := by
  cases h with
  | ok h => exact h.map Prod.snd fun _ _ => rfl
  | error e h => exact h

/-- Answers that are no symbols are the same. -/
theorem result_eq {o o' : Outcome (Solver α) (Error α) Unit}
    (h : Agrees x y o o') : o'.result = o.result := by
  cases h <;> rfl

end Agrees

-- ========================================================== operations

namespace Alike

/-- Data that may be missing is missing on both sides or on neither. -/
theorem cases_option {z z' : Option Z} (h : Alike s t (z, x) (z', y)) :
    z = none ∧ z' = none ∧ Alike s t x y
      ∨ ∃ a a', z = some a ∧ z' = some a' ∧ Alike s t (a, x) (a', y) := by
  obtain ⟨ρ, hs, h, hzx, hy⟩ := h
  obtain ⟨rfl, rfl⟩ := Prod.mk.inj hy
  have hx : Below s.nextId x := hzx.map (f := Prod.snd) fun _ => rfl
  cases z with
  | none => exact .inl ⟨rfl, rfl, ρ, hs, h, hx, rfl⟩
  | some a =>
      have ha : Below s.nextId a := fun σ hσ =>
        Option.some.inj (congrArg Prod.fst (hzx σ hσ))
      exact .inr ⟨a, ρ • a, rfl, rfl, ρ, hs, h, ha.prod hx, rfl⟩

/-- A refusal names the same constraints. -/
theorem refuse (h : Alike s t x y) (c : Constraint α) :
    Agrees (Z := Z) x y (.error s (s.unsatisfiable c))
      (.error t (t.unsatisfiable c)) := by
  have hlist : t.constraints = s.constraints := by
    obtain ⟨ρ, -, h, -⟩ := h
    exact h.constraints_eq
  unfold unsatisfiable
  rw [hlist]
  exact .error _ h

/-- Work on the tableau whose answer is no symbol. -/
theorem agrees_onTableau (h : Alike s t x y)
    (f : Tableau α → X → Outcome (Tableau α) Tableau.Failure Unit)
    (hf : ∀ (ρ : Perm ℕ) u x, f (ρ • u) (ρ • x) = ρ • f u x) :
    Agrees x y (s.onTableau (f s.tableau x)) (t.onTableau (f t.tableau y))
    := by
  obtain ⟨hres, hstate⟩ := h.onTableau f hf
  generalize s.onTableau (f s.tableau x) = o at hres hstate ⊢
  generalize t.onTableau (f t.tableau y) = o' at hres hstate ⊢
  obtain ⟨s', result⟩ := o
  obtain ⟨t', result'⟩ := o'
  obtain rfl : result' = result := hres
  cases result' with
  | ok u => exact .ok (hstate.map (fun x => (u, x)) fun _ _ => rfl)
  | error e => exact .error e hstate

theorem settle (h : Alike s t x y) :
    Agrees x y (s.settle budget) (t.settle budget) :=
  h.agrees_onTableau (fun u _ => u.minimise budget .main)
    fun ρ u _ => Tableau.minimise_smul ρ u budget .main

-- ------------------------------------------------------------- adding

theorem define {r r' : Row α} {a a' : Symbol}
    (h : Alike s t (r, a, x) (r', a', y)) :
    Agrees x y (s.define r a) (t.define r' a') := by
  have hsolved := h.map
    (fun p : Row α × Symbol × X => (p.1.isolate? p.2.1, p.2))
    fun ρ p => Prod.ext (Row.isolate?_smul ρ p.1 p.2.1) rfl
  unfold Solver.define
  rcases hsolved.cases_option with
    ⟨hd, hd', hold⟩ | ⟨d, d', hd, hd', hnew⟩
  · dsimp only at hd hd'
    rw [hd, hd']
    exact .error _ (hold.map Prod.snd fun _ _ => rfl)
  · dsimp only at hd hd'
    rw [hd, hd']
    have hinstalled := hnew.withTableau.map
      (fun p : Tableau α × Row α × Symbol × X =>
        (p.1.install p.2.2.1 p.2.1, p.2.2.2))
      fun ρ p => Prod.ext (Tableau.install_smul ρ p.1 p.2.2.1 p.2.1) rfl
    exact .ok (hinstalled.setTableau.map (fun x => ((), x)) fun _ _ => rfl)

theorem enter {r r' : Row α} {f f' : Footprint}
    (h : Alike s t (r, f, x) (r', f', y)) (c : Constraint α) :
    Agrees (f, x) (f', y) (s.enter budget c r f) (t.enter budget c r' f')
    := by
  have hpivot := h.map
    (fun p : Row α × Footprint × X => (pivotFor? p.1 p.2.1, p))
    fun ρ p => Prod.ext (pivotFor?_smul ρ p.1 p.2.1) rfl
  have hkeep := h.map (fun p : Row α × Footprint × X => p.2) fun _ _ => rfl
  unfold Solver.enter
  rcases hpivot.cases_option with ⟨hp, hp', -⟩ | ⟨a, a', hp, hp', hfound⟩
  · dsimp only at hp hp'
    rw [hp, hp']
    obtain ⟨hdummies, hconstant⟩ : r'.onlyDummies = r.onlyDummies
        ∧ r'.constant = r.constant := by
      obtain ⟨ρ, -, -, -, hy⟩ := h
      obtain rfl := congrArg Prod.fst hy
      exact ⟨Row.onlyDummies_smul ρ r, rfl⟩
    dsimp only
    rw [hdummies, hconstant]
    split
    · split
      · exact Alike.define <| h.map
          (fun p : Row α × Footprint × X => (p.1, p.2.1.marker, p.2))
          fun _ _ => rfl
      · exact hkeep.refuse c
    · have hart := h.fresh .slack
      obtain ⟨hres, hstate⟩ := hart.onTableau
        (fun u p => u.adjoin budget p.1 p.2.1)
        fun ρ u p => Tableau.adjoin_smul ρ u p.1 p.2.1 budget
      have hstate := hstate.map
        (fun p : Symbol × Row α × Footprint × X => p.2.2) fun _ _ => rfl
      unfold Outcome.andThen
      dsimp only at hres hstate ⊢
      rw [hres]
      split
      · split
        · exact .ok (hstate.map (fun x => ((), x)) fun _ _ => rfl)
        · exact hstate.refuse c
      · exact .error _ hstate
  · dsimp only at hp hp'
    rw [hp, hp']
    exact Alike.define <| hfound.map
      (fun p : Symbol × Row α × Footprint × X => (p.2.1, p.1, p.2.2))
      fun _ _ => rfl

/-- What the symbols of a table entry were renamed to. -/
private theorem entry {o o' : Option Z} {ρ : Perm ℕ} (hs : s.Numbered)
    (h : Renames ρ s t) (hx : Below s.nextId x)
    (ho : o' = o.map (ρ • ·)) (hbelow : ∀ {z}, o = some z → Below s.nextId z) :
    Alike s t (o, x) (o', ρ • x) := by
  refine ⟨ρ, hs, h, Below.prod ?_ hx, Prod.ext ho rfl⟩
  cases o with
  | none => exact fun _ _ => rfl
  | some z => exact fun σ hσ => congrArg some (hbelow rfl σ hσ)

theorem registers (h : Alike s t x y) (c : Constraint α) :
    Agrees x y (s.register budget c) (t.register budget c) := by
  have hcontains : t.contains c = s.contains c := by
    obtain ⟨ρ, -, h, -⟩ := h
    exact h.contains_eq c
  unfold Solver.register
  rw [hcontains]
  split
  · exact .error _ h
  · have hall := ((h.equation c).enter budget c).andThen fun hentered =>
      (((hentered.map Prod.snd fun _ _ => rfl).register c).settle
        budget).andThen fun h => .ok <|
          h.map (fun p : Unit × Footprint × X => (p.2.1, p.2))
            fun _ _ => rfl
    exact hall.map Prod.snd fun _ _ => rfl

theorem add (h : Alike s t x y) (c : Constraint α) :
    Agrees x y (s.add budget c) (t.add budget c) :=
  (h.registers budget c).andThen fun h =>
    .ok (h.map (fun p : Footprint × X => ((), p.2)) fun _ _ => rfl)

-- ----------------------------------------------------------- removing

theorem forgive {g g' : Registration α} (h : Alike s t (g, x) (g', y)) :
    Alike (s.forgive g) (t.forgive g') (g, x) (g', y) := by
  have hweight : g'.constraint = g.constraint := by
    obtain ⟨ρ, -, -, -, hy⟩ := h
    obtain rfl := congrArg Prod.fst hy
    rfl
  have herror := h.map
    (fun p : Registration α × X => (p.1.footprint.error?, p))
    fun ρ p => Prod.ext (Footprint.error?_smul ρ p.1.footprint) rfl
  unfold Solver.forgive
  rcases herror.cases_option with ⟨he, he', hold⟩ | ⟨e, e', he, he', hfound⟩
  · dsimp only at he he'
    rw [he, he']
    exact hold
  · dsimp only at he he'
    rw [he, he', hweight]
    exact setTableau <| hfound.withTableau.map
      (fun p : Tableau α × Symbol × Registration α × X =>
        ({ p.1 with
            objective := p.1.addSymbol p.1.objective p.2.1
              (-g.constraint.strength.value) }, p.2.2))
      fun ρ p => by
        dsimp only [Prod.smul_fst, Prod.smul_snd]
        rw [Tableau.objective_smul, Tableau.addSymbol_smul]
        rfl

omit [Scalar α] in
private theorem onTableau_replacing (s : Solver α)
    (r : Except Tableau.Failure (Tableau α))
    (f : Solver α → Outcome (Solver α) (Error α) Unit) :
    (s.onTableau (.replacing s.tableau r)).andThen (fun s _ => f s)
      = match r with
        | .error e => .error s (.failure e)
        | .ok u => f { s with tableau := u } := by
  cases r <;> rfl

theorem remove (h : Alike s t x y) (c : Constraint α) :
    Agrees x y (s.remove budget c) (t.remove budget c) := by
  have hentry : Alike s t (s.registry.get? c.id, x)
      (t.registry.get? c.id, y) := by
    obtain ⟨ρ, hs, h, hx, rfl⟩ := h
    exact entry hs h hx (h.get?_registry c.id) hs.registry
  unfold Solver.remove
  rcases hentry.cases_option with ⟨hg, hg', hold⟩ | ⟨g, g', hg, hg', hfound⟩
  · rw [hg, hg']
    exact .error _ hold
  · rw [hg, hg']
    have hdropped := ((hfound.unregister c.id).forgive.agrees_onTableau
      (fun u p => .replacing u (u.dropMarker p.1.footprint.marker))
      fun ρ u p => by
        rw [← Outcome.replacing_smul, ← Tableau.dropMarker_smul]
        rfl).map Prod.snd fun _ _ => rfl
    have hall := hdropped.andThen fun h =>
      (h.map Prod.snd fun _ _ => rfl).settle budget
    rw [onTableau_replacing, onTableau_replacing] at hall
    exact hall

-- ------------------------------------------------------ edit variables

theorem addEdit (h : Alike s t x y) (id : ℕ) (v : Variable)
    (strength : Strength α) :
    Agrees x y (s.addEdit budget id v strength)
      (t.addEdit budget id v strength) := by
  have hedited : t.isEdited v = s.isEdited v := by
    obtain ⟨ρ, -, h, -⟩ := h
    exact h.isEdited_eq v
  unfold Solver.addEdit
  rw [hedited]
  split
  · exact .error _ h
  · split
    · exact .error _ h
    · refine (h.registers budget _).andThen fun h => ?_
      exact .ok ((h.setEdit v (.new id v strength)).map
        (fun p : Footprint × X => ((), p.2)) fun _ _ => rfl)

private theorem edits_entry (h : Alike s t x y) (v : Variable) :
    Alike s t (s.edits.get? v, x) (t.edits.get? v, y) := by
  obtain ⟨ρ, hs, h, hx, rfl⟩ := h
  exact entry hs h hx (h.get?_edits v) hs.edits

/-- The edit constraint itself holds no symbol. -/
private theorem edit_constraint_eq {e e' : Edit α}
    (h : Alike s t (e, x) (e', y)) : e'.constraint = e.constraint := by
  obtain ⟨ρ, -, -, -, hy⟩ := h
  obtain rfl := congrArg Prod.fst hy
  rfl

theorem removeEdit (h : Alike s t x y) (v : Variable) :
    Agrees x y (s.removeEdit budget v) (t.removeEdit budget v) := by
  unfold Solver.removeEdit
  rcases (h.edits_entry v).cases_option with
    ⟨he, he', hold⟩ | ⟨e, e', he, he', hfound⟩
  · rw [he, he']
    exact .error _ hold
  · rw [he, he']
    dsimp only
    rw [hfound.edit_constraint_eq]
    exact (h.remove budget _).andThen fun h => .ok (h.eraseEdit v)

theorem suggest (h : Alike s t x y) (v : Variable) (value : α) :
    Agrees x y (s.suggest budget v value) (t.suggest budget v value) := by
  unfold Solver.suggest
  rcases (h.edits_entry v).cases_option with
    ⟨he, he', hold⟩ | ⟨e, e', he, he', hfound⟩
  · rw [he, he']
    exact .error _ hold
  · rw [he, he']
    dsimp only
    rw [hfound.edit_constraint_eq]
    have hset := (hfound.map
      (fun p : Edit α × X => (p.1.footprint, p.2)) fun _ _ => rfl).setEdit v
      (e.constraint.suggest value)
    exact (hset.agrees_onTableau
      (fun u p => (u.moveTarget p.1 _).restore budget)
      fun ρ u p => by
        rw [Prod.smul_fst, Tableau.moveTarget_smul,
          Tableau.restore_smul]).map Prod.snd fun _ _ => rfl

-- ------------------------------------------------------------ reading

/-- A variable is bound afterwards as it was before, with the value that
its symbol has in the solution. -/
private theorem get?_refresh (s : Solver α) (v : Variable) :
    s.refresh.bindings.get? v = (s.bindings.get? v).map fun b =>
      ⟨b.symbol, s.tableau.solution b.symbol⟩ :=
  Table.get?_map _ s.bindings v

private theorem bound_of_refresh {v : Variable} {b : Binding α}
    (h : s.refresh.bindings.get? v = some b) :
    ∃ b₀, s.bindings.get? v = some b₀
      ∧ b = ⟨b₀.symbol, s.tableau.solution b₀.symbol⟩ := by
  rw [get?_refresh] at h
  obtain ⟨b₀, h₀, hb⟩ := Option.map_eq_some_iff.1 h
  exact ⟨b₀, h₀, hb.symm⟩

private theorem unbound_of_refresh {v : Variable}
    (h : s.refresh.bindings.get? v = none) : s.bindings.get? v = none := by
  rw [get?_refresh] at h
  exact Option.map_eq_none_iff.1 h

/-- Copying values; what is bound in excess gets the value that it had. -/
theorem refresh (h : Alike s t x y) : Alike s.refresh t.refresh x y := by
  obtain ⟨ρ, hs, h, hx, hy⟩ := h
  refine ⟨ρ, { hs with bindings := ?_ },
    { h with bound := ?_, extra := ?_, apart := ?_ }, hx, hy⟩
  · intro v b hb
    obtain ⟨b₀, hb₀, rfl⟩ := bound_of_refresh hb
    show b₀.symbol.id < s.nextId
    exact hs.bindings hb₀
  · intro v b hb
    obtain ⟨b₀, hb₀, rfl⟩ := bound_of_refresh hb
    rw [get?_refresh, h.bound hb₀, Option.map_some, h.tableau,
      Tableau.solution_smul]
  · intro v b hv hb
    obtain ⟨b₀, hb₀, rfl⟩ := bound_of_refresh hb
    obtain ⟨hk, -, hlt, hne⟩ := h.extra (unbound_of_refresh hv) hb₀
    exact ⟨hk, h.solution_extra hs hne, hlt, hne⟩
  · intro v w b c hv hw hb hc hid
    obtain ⟨b₀, hb₀, rfl⟩ := bound_of_refresh hb
    obtain ⟨c₀, hc₀, rfl⟩ := bound_of_refresh hc
    exact h.apart (unbound_of_refresh hv) (unbound_of_refresh hw) hb₀ hc₀
      hid

end Alike

-- =============================================================== steps

theorem numbered_empty : (empty : Solver α).Numbered where
  tableau := fun _ _ => rfl
  registry := fun h => by cases h
  edits := fun h => by cases h
  bindings := fun h => by cases h

/-- A solver that holds no symbol but those it has given out is like
itself. -/
theorem Numbered.alike (h : s.Numbered) : Alike s s () () :=
  ⟨1, h, .refl s, fun _ _ => rfl, rfl⟩

namespace Alike

/-- Like solvers carry out a command alike. -/
theorem perform (h : Alike s t () ()) (c : Command α) :
    Agrees () () (s.perform budget c) (t.perform budget c) := by
  cases c with
  | add c => exact h.add budget c
  | remove c => exact h.remove budget c
  | addEdit id v strength => exact h.addEdit budget id v strength
  | removeEdit v => exact h.removeEdit budget v
  | suggest v value => exact h.suggest budget v value
  | refresh => exact .ok (h.refresh.map (fun u => (u, ())) fun _ _ => rfl)
  | reset =>
      exact .ok (numbered_empty.alike.map (fun u => (u, ())) fun _ _ => rfl)

/-- And so any number of commands. -/
theorem run (h : Alike s t () ()) (commands : List (Command α)) :
    (t.run budget commands).2 = (s.run budget commands).2
      ∧ Alike (s.run budget commands).1 (t.run budget commands).1 () () := by
  induction commands generalizing s t with
  | nil => exact ⟨rfl, h⟩
  | cons c commands ih =>
      have hstep := h.perform budget c
      obtain ⟨hanswers, hlast⟩ := ih hstep.state
      exact ⟨congrArg₂ List.cons hstep.result_eq hanswers, hlast⟩

end Alike

/-- No solver that commands lead to holds a symbol that it has not given
out. -/
theorem Reachable.numbered {allowed : Solver α → Command α → Prop}
    (h : Reachable allowed s) : s.Numbered := by
  induction h with
  | empty => exact numbered_empty
  | step budget before may ends ih =>
      obtain ⟨ρ, hs, -⟩ := (ih.alike.perform budget _).state
      exact hs

end Solver

end LinearConstraints
