/-
Rest: between two commands there is nothing to be done.

A row is put on the stack when it turns negative. With exact arithmetic
the pivots of a minimisation keep a feasible tableau feasible, so they put
nothing there; only a suggestion does, and it empties the stack before it
answers. So a solver comes to rest after every command that has not failed
in its tableau: the tableau is feasible, nothing waits, and no symbol
lowers the objective. Basic dummies have no part in this, so no command
needs to be ruled out.

Main statements: `AtRest.perform`, one command; `AtRest.quiet` and
`AtRest.idleOff`, what rest means for either side of a division.
-/
import LinearConstraints.Proofs.Apart
import LinearConstraints.Proofs.Transition

namespace LinearConstraints

namespace Tableau

variable {t t' : Tableau Rat} {b s x : Symbol} {d r : Row Rat}

-- ============================================================= pivoting

/-- A substitution that leaves no row negative puts none on the stack. -/
theorem infeasible_substitute (h : (t.substitute s d).Feasible) :
    (t.substitute s d).infeasible = t.infeasible := by
  have hnone : (t.substitute s d).rows.entries.filter
      (fun e => isNegative e.1 e.2) = [] := by
    refine List.filter_eq_nil_iff.2 fun e he hneg => ?_
    obtain ⟨hext, hneg⟩ := isNegative_iff.1 hneg
    exact not_lt.2 (h _ _ (Table.get?_eq_some_iff.2 he) hext) hneg
  show (((t.substitute s d).rows.entries.filter fun e =>
    isNegative e.1 e.2).map Prod.fst).reverse ++ t.infeasible = _
  rw [hnone]
  rfl

theorem infeasible_install (hs : ¬ t.IsBasic s)
    (h : (t.install s d).Feasible) :
    (t.install s d).infeasible = t.infeasible := by
  refine infeasible_substitute (d := d) fun b r hr hb => h b r ?_ hb
  have hsb : s ≠ b := by
    intro heq
    subst heq
    exact hs (isBasic_substitute.1 ⟨r, hr⟩)
  rw [get?_rows_install, if_neg hsb, ← get?_rows_substitute]
  exact hr

-- ================================================================ loops

/-- Minimising a feasible tableau puts nothing on the stack. -/
theorem infeasible_minimise (hc : t.Canonical) (hf : t.Feasible)
    (budget : ℕ) (goal : Goal) :
    (t.minimise budget goal).state.infeasible = t.infeasible := by
  have key : (t.minimise budget goal).state.Canonical
      ∧ (t.minimise budget goal).state.Feasible
      ∧ (t.minimise budget goal).state.infeasible = t.infeasible := by
    refine iterate_state
      (P := fun u : Tableau Rat => u.Canonical ∧ u.Feasible
        ∧ u.infeasible = t.infeasible)
      (fun u u' h hstep => ?_) (fun u u' res h hstop => ?_) budget
      ⟨hc, hf, rfl⟩
    · obtain ⟨hc, hf, hstack⟩ := h
      have hf' := primalStep_feasible hc hf hstep
      refine ⟨(primalStep_restates hc hstep).canonical, hf', ?_⟩
      obtain ⟨o, s, b, r, d, -, -, -, hp, rfl⟩ := primalStep_eq_next hstep
      have hnew : ¬ (u.without b).IsBasic s :=
        fun hb => hp.not_basic hc (isBasic_without.1 hb).2
      exact (infeasible_install hnew hf').trans hstack
    · have := (primalStep_eq_stop hstop).1
      exact this ▸ h
  exact key.2.2

/-- Repairing ends well only with an empty stack. -/
theorem infeasible_restore {budget : ℕ}
    (hok : (t.restore budget).result = .ok ()) :
    (t.restore budget).state.infeasible = [] := by
  rcases iterate_induction (P := fun _ => True) (fun _ _ _ _ => trivial)
    budget t trivial with ⟨hspent, -⟩ | ⟨u, -, hstop⟩
  · have := hok.symm.trans hspent
    cases this
  · obtain ⟨hst, hempty⟩ := (dualStep_eq_stop hstop).1 hok
    have hst : (t.restore budget).state = u := hst
    rw [hst]
    exact hempty

-- =========================================================== adjunction

/-- Retiring a symbol puts nothing on the stack if it ends feasible. -/
private theorem infeasible_retire {art : Symbol} (hc : t.Canonical)
    (hf : (t.retire art).state.Feasible) :
    (t.retire art).state.infeasible = t.infeasible := by
  generalize ho : t.retire art = o at hf ⊢
  cases retire_eq_iff.1 ho with
  | away | empty | refused | absent => rfl
  | @pivot r s t₁ row _ enters exchange =>
      obtain ⟨hne, -⟩ := firstPivotable?_spec (hc.reduced (.row row)) enters
      -- Purging moves no constant.
      have hf₁ : t₁.Feasible := by
        intro b r₁ hr₁ hb
        refine hf b (r₁.discard art) ?_ hb
        show (t₁.rows.map _).get? b = _
        rw [Table.get?_map, hr₁]
        rfl
      obtain ⟨d, hp, rfl⟩ := pivot_of_exchange? exchange row hne
      have hnew : ¬ (t.without art).IsBasic s :=
        fun hb => hp.not_basic hc (isBasic_without.1 hb).2
      exact infeasible_install hnew hf₁

/-- Adjoining to a feasible tableau puts nothing on the stack. -/
theorem infeasible_adjoin {art : Symbol} {budget : ℕ}
    (h : t.Adjoinable art r) (hf : t.Feasible) (hr : 0 ≤ r.constant)
    (hok : (t.adjoin budget art r).result = .ok true) :
    (t.adjoin budget art r).state.infeasible = t.infeasible := by
  have hlast := adjoin_feasible h hf hr hok
  have heq := adjoin_eq_of_ok hok
  rw [heq] at hok hlast ⊢
  have hcan := canonical_withArtificial h
  have hmin := infeasible_minimise hcan (feasible_withArtificial hf hr)
    budget .auxiliary
  have hcan' := (minimise_restates budget .auxiliary hcan).canonical
  generalize ho : t.searchWith budget art r = o at hok hlast ⊢
  cases searchWith_eq_iff.1 ho with
  | failed | above => cases hok
  | zero minimised =>
      rw [minimised] at hmin hcan'
      exact (infeasible_retire (canonical_dropAuxiliary hcan')
        hlast).trans hmin

/-- Dropping a marker from a feasible tableau puts nothing on the
stack. -/
theorem infeasible_dropMarker (hc : t.Canonical) (hf : t.Feasible)
    (h : t.dropMarker s = .ok t') : t'.infeasible = t.infeasible := by
  have hf' := feasible_of_dropMarker hc hf h
  rcases dropMarker_eq_ok h with ⟨-, rfl⟩ | ⟨b, r, d, -, -, rfl⟩
  · rfl
  · exact infeasible_substitute hf'

end Tableau

namespace Solver

variable {s s' : Solver Rat} {goal : ℕ → Rat} {budget : ℕ}

/-- The tableau is feasible, nothing waits to be repaired, and no symbol
lowers the objective. -/
structure AtRest (s : Solver Rat) : Prop where
  feasible : s.tableau.Feasible
  infeasible : s.tableau.infeasible = []
  lowest : s.tableau.objective.Lowest

namespace AtRest

theorem congr (h : s.AtRest) (ht : s'.tableau = s.tableau) : s'.AtRest :=
  ⟨ht ▸ h.feasible, ht ▸ h.infeasible, ht ▸ h.lowest⟩

/-- Neither side of a solver at rest has anything to be done. -/
theorem quiet (h : s.AtRest) (P : Symbol → Bool) : s.tableau.Quiet P where
  rows := by
    intro b r hr _
    by_contra hneg
    obtain ⟨hext, hneg⟩ :=
      Tableau.isNegative_iff.1 (Bool.not_eq_false _ ▸ hneg)
    exact not_lt.2 (h.feasible b r hr hext) hneg
  infeasible := by
    rw [h.infeasible]
    rfl

theorem idleOff (h : s.AtRest) (d : Sides) (κ : Bool) : IdleOff d κ s := by
  intro x k hx _ hdummy hneg
  have hk : s.tableau.objective.coefficient x = k := by
    unfold Row.coefficient
    rw [hx]
    rfl
  exact not_lt.2 (h.lowest x hdummy) (hk ▸ hneg)

/-- Lowering the objective of a feasible tableau brings a solver to
rest. -/
private theorem settle (hc : s.tableau.Canonical) (hf : s.tableau.Feasible)
    (hstack : s.tableau.infeasible = [])
    (hok : (s.settle budget).result = .ok ()) :
    (s.settle budget).state.AtRest where
  feasible := Tableau.minimise_feasible budget .main hc hf
  infeasible := (Tableau.infeasible_minimise hc hf budget .main).trans hstack
  lowest := Tableau.lowest_of_minimise (ok_of_onTableau hok) rfl

-- ============================================================= adding

/-- Entering a row puts nothing on the stack. -/
private theorem infeasible_enter {c : Constraint Rat} {r : Row Rat}
    {f : Footprint} {s₁ : Solver Rat} (h : s.Consistent goal)
    (hp : s.Poses c r f s₁) (hf : s₁.tableau.Feasible)
    (hok : (s₁.enter budget c r f).result = .ok ()) :
    (s₁.enter budget c r f).state.tableau.infeasible
      = s₁.tableau.infeasible := by
  have hlast := (hp.enters_of_ok h hok).feasible hf
  rcases hp.entry_cases h.separated hok with
    ⟨x, d, hne, -, -, heq⟩ | ⟨hadj, hres, heq⟩
  · rw [heq] at hlast ⊢
    exact Tableau.infeasible_install
      (fun hb => hne (hp.written.nonbasic x hb)) hlast
  · rw [heq]
    exact Tableau.infeasible_adjoin hadj hf hp.constant hres

/-- The rows and the stack after a constraint has been posed are those
before. -/
private theorem posed {c : Constraint Rat} {r : Row Rat} {f : Footprint}
    {s₁ : Solver Rat} (h : s.AtRest) (hp : s.Poses c r f s₁) :
    s₁.tableau.Feasible ∧ s₁.tableau.infeasible = [] := by
  rw [hp.tableau]
  exact ⟨h.feasible, h.infeasible⟩

/-- Registering a constraint brings a solver back to rest, whether or not
the constraint is refused. -/
private theorem register (hcons : s.Consistent goal) (h : s.AtRest)
    {c : Constraint Rat} (hweight : 0 ≤ c.strength.value)
    (hno : ∀ f, (s.register budget c).result ≠ .error (.failure f)) :
    (s.register budget c).state.AtRest := by
  cases hc : s.contains c with
  | true =>
      unfold Solver.register
      rw [if_pos hc]
      exact h
  | false =>
      have hp := poses_equation hcons.toGrounded c
      generalize hq : s.equation c = q at hp
      obtain ⟨r, f, s₁⟩ := q
      dsimp only at hp
      obtain ⟨hf, hstack⟩ := h.posed hp
      rw [register_eq hc hq] at hno ⊢
      rcases enter_cases hp hcons.toGrounded hcons.separated
          hcons.auxiliary budget with
        ⟨hres, hent⟩ | ⟨hres, href⟩ | ⟨e, hres, he⟩
      · -- The row has entered, and the objective is lowered again.
        have hcons' := hcons.register hp hweight (get?_of_not_contains hc)
          hent
        have hstack' := (infeasible_enter hcons hp hf hres).trans hstack
        rw [Outcome.andThen_of_ok hres] at hno ⊢
        generalize (s₁.enter budget c r f).state = s₂
          at hno hent hcons' hstack' ⊢
        cases hset : ((s₂.withRegistration c f).settle budget).result with
        | error e =>
            obtain ⟨f', -, rfl⟩ := error_of_onTableau hset
            refine absurd ?_ (hno f')
            unfold Outcome.andThen
            rw [hset]
        | ok u =>
            rw [Outcome.state_andThen_ok]
            exact settle hcons'.canonical (hent.feasible hf) hstack' hset
      · -- A refused constraint is required, so it had no weight.
        have hstate : ((s₁.enter budget c r f).andThen fun s₂ _ =>
            ((s₂.withRegistration c f).settle budget).andThen fun s₃ _ =>
              .ok s₃ f).state = (s₁.enter budget c r f).state := by
          unfold Outcome.andThen
          rw [hres]
        rw [hstate]
        refine ⟨?_, ?_, ?_⟩
        · rw [href.tableau]
          exact hf
        · rw [href.tableau]
          exact hstack
        · rw [href.tableau]
          refine Row.Lowest.congr h.lowest fun v => ?_
          rw [hp.objective, hp.fits.errors_eq_zero href.required, mul_zero,
            add_zero]
      · cases e with
        | failure f' =>
            refine absurd ?_ (hno f')
            unfold Outcome.andThen
            rw [hres]
        | _ => cases he

-- =========================================================== removing

private theorem remove (hcons : s.Consistent goal) (h : s.AtRest)
    (c : Constraint Rat)
    (hno : ∀ f, (s.remove budget c).result ≠ .error (.failure f)) :
    (s.remove budget c).state.AtRest := by
  cases hi : s.registry.get? c.id with
  | none =>
      unfold Solver.remove
      rw [hi]
      exact h
  | some g =>
      obtain ⟨herr, hok⟩ := remove_eq hi budget
      cases ht : (s.forgive g).tableau.dropMarker g.footprint.marker with
      | error f => exact absurd (herr f ht) (hno f)
      | ok t =>
          have hcons' := hcons.withdraw hi ht
          obtain ⟨hcan, -, -⟩ := hcons.forgive hi
          have hf := hcons.feasible_of_withdraw hi h.feasible ht
          have hstack : t.infeasible = [] := by
            refine (Tableau.infeasible_dropMarker hcan ?_ ht).trans ?_
            · rw [forgive_eq]
              exact h.feasible
            · rw [forgive_eq]
              exact h.infeasible
          rw [hok t ht] at hno ⊢
          cases hset : (((s.withoutRegistration c.id).withTableau t).settle
              budget).result with
          | error e =>
              obtain ⟨f, -, rfl⟩ := error_of_onTableau hset
              exact absurd hset (hno f)
          | ok u => exact settle hcons'.canonical hf hstack hset

-- ============================================================== edits

private theorem suggest (hcons : s.Consistent goal) (h : s.AtRest)
    (v : Variable) (value : Rat)
    (hno : ∀ f, (s.suggest budget v value).result ≠ .error (.failure f)) :
    (s.suggest budget v value).state.AtRest := by
  unfold Solver.suggest at hno ⊢
  cases he : s.edits.get? v with
  | none => exact h
  | some e =>
      rw [he] at hno
      dsimp only at hno ⊢
      obtain ⟨z, a, -, hshift⟩ := (hcons.edits he).shifts hcons.canonical
        (value - e.constraint.target)
      have hcan := hshift.canonical hcons.canonical
      have hsep := hshift.separated hcons.separated
      cases hres : ((s.tableau.moveTarget e.footprint
          (value - e.constraint.target)).restore budget).result with
      | error f =>
          refine absurd ?_ (hno f)
          unfold Solver.onTableau
          dsimp only
          rw [hres]
          rfl
      | ok u =>
          exact ⟨Tableau.feasible_of_restore hcan hsep
              (hshift.pending h.feasible) hres,
            Tableau.infeasible_restore hres,
            Tableau.restore_lowest budget hcan hsep
              (hshift.objective ▸ h.lowest)⟩

-- =========================================================== commands

/-- A solver comes back to rest after a command, unless that fails in its
tableau. -/
theorem perform (hcons : s.Consistent goal) (h : s.AtRest)
    {c : Command Rat} (hb : c.Built)
    (hno : ∀ f, (s.perform budget c).result ≠ .error (.failure f)) :
    (s.perform budget c).state.AtRest := by
  cases c with
  | add c =>
      have hno' : ∀ f, (s.register budget c).result ≠ .error (.failure f) :=
        fun f hf => hno f ((Outcome.error_andThen_ok_iff _ _).2 hf)
      show (s.add budget c).state.AtRest
      unfold Solver.add
      rw [Outcome.state_andThen_ok]
      exact register hcons h (Constraint.Built.weight hb) hno'
  | remove c => exact remove hcons h c hno
  | addEdit id v strength =>
      show (s.addEdit budget id v strength).state.AtRest
      have hno : ∀ f, (s.addEdit budget id v strength).result
          ≠ .error (.failure f) := hno
      unfold Solver.addEdit at hno ⊢
      split
      · exact h
      case isFalse hedited =>
        rw [if_neg hedited] at hno
        split
        · exact h
        case isFalse hreq =>
          rw [if_neg hreq] at hno
          dsimp only at hno ⊢
          have hweight := EditConstraint.weight_new id v strength
          have hreg : (s.register budget (EditConstraint.new id v
              strength).constraint).state.AtRest :=
            register hcons h hweight fun f hf =>
              hno f ((Outcome.error_andThen_ok_iff _ _).2 hf)
          refine hreg.congr ?_
          unfold Outcome.andThen
          split <;> rfl
  | removeEdit v =>
      show (s.removeEdit budget v).state.AtRest
      have hno : ∀ f, (s.removeEdit budget v).result
          ≠ .error (.failure f) := hno
      unfold Solver.removeEdit at hno ⊢
      split
      · exact h
      case h_2 e he =>
        rw [he] at hno
        dsimp only at hno
        have hrem : (s.remove budget
            e.constraint.constraint).state.AtRest :=
          remove hcons h _ fun f hf =>
            hno f ((Outcome.error_andThen_ok_iff _ _).2 hf)
        refine hrem.congr ?_
        unfold Outcome.andThen
        split <;> rfl
  | suggest v value => exact suggest hcons h v value hno
  | refresh => exact h.congr rfl
  | reset => exact ⟨settled_empty.feasible, rfl, settled_empty.lowest⟩

end AtRest

theorem atRest_empty : (empty : Solver Rat).AtRest :=
  ⟨settled_empty.feasible, rfl, settled_empty.lowest⟩

end Solver

end LinearConstraints
