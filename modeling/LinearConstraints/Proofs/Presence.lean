/-
Presence: a row is only ever solved for a symbol that it mentions.

Whatever is to become basic is chosen for its coefficient in the row that
it takes over: the row falls as the symbol grows, or rises, or mentions
the marker to be dropped. In a canonical tableau the symbol that leaves
does not occur in its own row, so the coefficient is still there when the
row is read as an equation. A new row is solved for one of its cells.

So there is one way only for an operation not to come to an end, which is
to spend its budget.

Main statement: `Consistent.returned_iff_ne_spent`.
-/
import LinearConstraints.Proofs.Transition

namespace LinearConstraints

-- ========================================================= the tableau

namespace Tableau

variable {t : Tableau Rat} {b s : Symbol} {r : Row Rat} {budget : Nat}

/-- The definition of a symbol can be solved for every other symbol that
it mentions. -/
theorem Canonical.exists_resolve? (hc : t.Canonical)
    (hr : t.rows.get? b = some r) (hs : r.coefficient s ≠ 0) :
    ∃ d, r.resolve? b s = some d := by
  have hne : b ≠ s := by
    intro heq
    subst heq
    exact hs (hc.nonbasic (.row hr) ⟨r, hr⟩)
  refine ⟨_, Row.isolate?_of_coefficient_ne ?_⟩
  rw [Row.coefficient_addCell, Row.unit_of_ne hne, mul_zero, add_zero]
  exact hs

theorem Canonical.release?_ne_none (hc : t.Canonical)
    (hr : t.rows.get? b = some r) (hs : r.coefficient s ≠ 0) :
    t.release? b s ≠ none := by
  obtain ⟨d, hd⟩ := hc.exists_resolve? hr hs
  intro h
  have := release?_eq_some_iff.2 ⟨r, hr, hd, rfl⟩
  rw [h] at this
  cases this

theorem Canonical.exchange?_ne_none (hc : t.Canonical)
    (hr : t.rows.get? b = some r) (hs : r.coefficient s ≠ 0) :
    t.exchange? b s ≠ none := by
  obtain ⟨d, hd⟩ := hc.exists_resolve? hr hs
  intro h
  have := exchange?_eq_some_iff.2 ⟨r, d, hr, hd, rfl⟩
  rw [h] at this
  cases this

/-- The row that limits a growing symbol mentions it. -/
theorem primalStep_ne_absent (hc : t.Canonical) {goal : Goal}
    {t' : Tableau Rat} :
    primalStep goal t ≠ .stop t' (.error .absentSymbol) := by
  intro h
  cases primalStep_eq_iff.1 h with
  | absent _ _ leaves exchange =>
      obtain ⟨r, hr, -, hneg, -⟩ := leaving?_spec leaves
      exact hc.exchange?_ne_none hr (ne_of_lt hneg) exchange

theorem minimise_ne_absent (hc : t.Canonical) (goal : Goal) :
    (t.minimise budget goal).result ≠ .error .absentSymbol :=
  iterate_ne_error (P := Canonical)
    (fun _ _ hc hs => (primalStep_restates hc hs).canonical)
    (fun _ _ hc => primalStep_ne_absent hc) (by decide) hc budget

/-- The symbol that raises a negative row occurs in it. -/
theorem dualStep_ne_absent (hc : t.Canonical) {t' : Tableau Rat} :
    dualStep t ≠ .stop t' (.error .absentSymbol) := by
  intro h
  cases dualStep_eq_iff.1 h with
  | absent stack row _ enters exchange =>
      obtain ⟨-, hpos, -⟩ := dualEntering?_spec enters
      have hc' := (restates_popped hc stack).canonical
      exact hc'.exchange?_ne_none row (ne_of_gt hpos) exchange

theorem restore_ne_absent (hc : t.Canonical) (hsep : t.Separated) :
    (t.restore budget).result ≠ .error .absentSymbol := by
  have hnext : ∀ t₁ t₂ : Tableau Rat, t₁.Canonical ∧ t₁.Separated →
      dualStep t₁ = .next t₂ → t₂.Canonical ∧ t₂.Separated := by
    intro t₁ t₂ h₁ hs
    have hre := dualStep_restates h₁.1 h₁.2 hs
    exact ⟨hre.canonical, hre.separated h₁.2⟩
  exact iterate_ne_error hnext (fun _ _ h₁ => dualStep_ne_absent h₁.1)
    (by decide) ⟨hc, hsep⟩ budget

/-- An artificial symbol is exchanged for a symbol of its row. -/
theorem retire_ne_absent (hc : t.Canonical) :
    (t.retire b).result ≠ .error .absentSymbol := by
  intro h
  generalize ho : t.retire b = o at h
  cases retire_eq_iff.1 ho with
  | away | empty | refused | pivot => cases h
  | absent row _ enters exchange =>
      obtain ⟨hne, -⟩ := firstPivotable?_spec (hc.reduced (.row row)) enters
      exact hc.exchange?_ne_none row hne exchange

theorem adjoin_ne_absent (h : t.Adjoinable b r) :
    (t.adjoin budget b r).result ≠ .error .absentSymbol := by
  intro he
  rw [result_adjoin] at he
  have hc := canonical_withArtificial h
  generalize ho : t.searchWith budget b r = o at he
  cases searchWith_eq_iff.1 ho with
  | failed minimised =>
      have hmin : ((t.withArtificial b r).minimise budget .auxiliary).result
          ≠ .error .absentSymbol := minimise_ne_absent hc .auxiliary
      rw [minimised] at hmin
      exact hmin (congrArg _ (Except.error.inj he))
  | above => cases he
  | @zero u minimised =>
      have hre := minimise_restates budget .auxiliary hc
      rw [minimised] at hre
      exact retire_ne_absent (canonical_dropAuxiliary hre.canonical) he

/-- The row that a marker replaces mentions it. -/
theorem dropMarker_ne_absent (hc : t.Canonical) :
    t.dropMarker s ≠ .error .absentSymbol := by
  intro h
  cases dropMarker_eq_iff.1 h with
  | absent _ leaves released =>
      obtain ⟨r, hr, hrow⟩ := markerLeaving?_spec leaves
      exact hc.release?_ne_none hr hrow.coefficient_ne released

end Tableau

-- ========================================================== the solver

namespace Solver

variable {s s₁ : Solver Rat} {goal : Nat → Rat} {budget : Nat}
  {c : Constraint Rat}

/-- The failure that no operation ends in. -/
private abbrev absent : Error Rat := .failure .absentSymbol

theorem Consistent.settle_ne_absent (h : s.Consistent goal) :
    (s.settle budget).result ≠ .error absent :=
  mt failure_of_onTableau_iff.1
    (Tableau.minimise_ne_absent h.canonical .main)

private theorem result_define {r : Row Rat} {x : Symbol}
    (hx : r.coefficient x ≠ 0) : (s.define r x).result = .ok () := by
  unfold define
  rw [Row.isolate?_of_coefficient_ne hx]
  rfl

/-- A new row is solved for one of its cells. -/
theorem Poses.enter_ne_absent {r : Row Rat} {f : Footprint}
    (hp : s.Poses c r f s₁) (hsep : s.tableau.Separated) :
    (s₁.enter budget c r f).result ≠ .error absent := by
  intro he
  have hred := hp.written.reduced
  unfold enter at he
  cases hpiv : pivotFor? r f with
  | some x =>
      rw [hpiv] at he
      have := he.symm.trans (result_define (pivotFor?_spec hred hpiv).1)
      cases this
  | none =>
      rw [hpiv] at he
      dsimp only [fresh] at he
      split at he
      · split at he
        · have := he.symm.trans (result_define hp.marker_ne)
          cases this
        · cases he
      · have hadj := hp.adjoinable hsep (pivotFor?_eq_none hred hpiv).1
        have hno : (s₁.tableau.adjoin budget ⟨.slack, s₁.nextId⟩ r).result
            ≠ .error .absentSymbol := Tableau.adjoin_ne_absent hadj
        rcases Outcome.error_of_andThen he with ⟨hw, -⟩ | ⟨found, -, heq⟩
        · exact hno (failure_of_onTableau_iff.1 hw)
        · rw [heq] at he
          cases found <;> cases he

theorem Consistent.register_ne_absent (h : s.Consistent goal)
    (hweight : 0 ≤ c.strength.value) :
    (s.register budget c).result ≠ .error absent := by
  intro he
  cases hc : s.contains c with
  | true =>
      unfold Solver.register at he
      rw [hc, if_pos rfl] at he
      cases he
  | false =>
      have hnew := get?_of_not_contains hc
      have hp := poses_equation h.toGrounded c
      generalize hq : s.equation c = q at hp
      obtain ⟨r, f, s₁⟩ := q
      dsimp only at hp
      rw [register_eq hc hq] at he
      rcases Outcome.error_of_andThen he with ⟨hent, -⟩ | ⟨u, hent, heq⟩
      · exact hp.enter_ne_absent h.separated hent
      · have hcons := h.register hp hweight hnew (hp.enters_of_ok h hent)
        rw [heq] at he
        exact hcons.settle_ne_absent
          ((Outcome.error_andThen_ok_iff _ _).1 he)

theorem Consistent.remove_ne_absent (h : s.Consistent goal)
    (c : Constraint Rat) :
    (s.remove budget c).result ≠ .error absent := by
  intro he
  cases hi : s.registry.get? c.id with
  | none =>
      unfold remove at he
      rw [hi] at he
      cases he
  | some g =>
      obtain ⟨herr, hok⟩ := remove_eq hi budget
      cases ht : (s.forgive g).tableau.dropMarker g.footprint.marker with
      | error f =>
          have := he.symm.trans (herr f ht)
          injection this with this
          injection this with this
          subst this
          exact Tableau.dropMarker_ne_absent (h.forgive hi).1 ht
      | ok t =>
          rw [hok t ht] at he
          exact (h.withdraw hi ht).settle_ne_absent he

theorem Consistent.suggest_ne_absent (h : s.Consistent goal)
    (x : Variable) (value : Rat) :
    (s.suggest budget x value).result ≠ .error absent := by
  intro he
  unfold suggest at he
  cases hx : s.edits.get? x with
  | none =>
      rw [hx] at he
      cases he
  | some e =>
      rw [hx] at he
      obtain ⟨y, a, -, hshift⟩ := (h.edits hx).shifts h.canonical
        (value - e.constraint.target)
      exact Tableau.restore_ne_absent (hshift.canonical h.canonical)
        (hshift.separated h.separated) (failure_of_onTableau_iff.1 he)

/-- No command is told to solve a row for a symbol that it does not
mention. -/
theorem Consistent.perform_ne_absent (h : s.Consistent goal)
    {c : Command Rat} (hb : c.Built) :
    (s.perform budget c).result ≠ .error absent := by
  intro he
  cases c with
  | add c =>
      exact h.register_ne_absent hb.weight
        ((Outcome.error_andThen_ok_iff _ _).1 he)
  | remove c => exact h.remove_ne_absent c he
  | addEdit id x strength =>
      have he : (s.addEdit budget id x strength).result = .error absent := he
      unfold addEdit at he
      split at he
      · cases he
      · split at he
        · cases he
        · exact h.register_ne_absent (EditConstraint.weight_new id x strength)
            ((Outcome.error_andThen_ok_iff _ _).1 he)
  | removeEdit x =>
      have he : (s.removeEdit budget x).result = .error absent := he
      unfold removeEdit at he
      split at he
      · cases he
      · exact h.remove_ne_absent _ ((Outcome.error_andThen_ok_iff _ _).1 he)
  | suggest x value => exact h.suggest_ne_absent x value he
  | refresh => cases he
  | reset => cases he

/-- A command comes to an end unless it spends its budget. -/
theorem Consistent.returned_iff_ne_spent (h : s.Consistent goal)
    {c : Command Rat} (hb : c.Built) :
    (s.perform budget c).Returned
      ↔ (s.perform budget c).result ≠ .error (.failure .budgetSpent) := by
  constructor
  · intro hr he
    have := hr _ he
    cases this
  · intro hne e he
    cases e with
    | failure f =>
        cases f with
        | absentSymbol => exact absurd he (h.perform_ne_absent hb)
        | budgetSpent => exact absurd he hne
        | _ => rfl
    | _ => rfl

end Solver

end LinearConstraints
