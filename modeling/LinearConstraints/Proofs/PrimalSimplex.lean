/-
The primal simplex search: what it keeps, where it stops, and that it is
never unbounded.

# Where it stops

A search ends well if no symbol but dummies has a negative coefficient in
its objective. On a canonical tableau whose objective mentions no external
symbol this makes the solution optimal: every proper valuation is worth
at least the constant of the objective (`Row.constant_le_value_of_lowest`).

# Why it is bounded

The objectives of a solver only ever count symbols that are not external,
each with a weight that is not negative. In the terms of the tableau: the
objective is monotone, solutions that are larger at those symbols are
worth no less. If a symbol could grow without limit, then one unit of it
would give such a larger solution, and the objective would gain its
coefficient there, which is negative. So the search is bounded on every
canonical tableau, feasible or not.

Main statements: `minimise_restates`, `minimise_feasible`,
`lowest_of_minimise` and `error_of_minimise`.
-/
import LinearConstraints.Proofs.Exchange
import LinearConstraints.Tableau.Primal

namespace LinearConstraints

-- ======================================================= lowest forms

/-- No symbol but dummies lowers the form as it grows. -/
def Row.Lowest (o : Row Rat) : Prop :=
  ∀ x, x.isDummy = false → 0 ≤ o.coefficient x

/-- Only what the form is worth counts. -/
theorem Row.Lowest.congr {o o' : Row Rat} (h : o.Lowest)
    (ho : ∀ v, o'.value v = o.value v) : o'.Lowest := by
  have hcoef := (Row.coefficient_of_value (r := o) (d := o')
    (φ := fun _ => 0) (fun v => by rw [ho, add_zero]) rfl).2
  intro x hx
  rw [hcoef, add_zero]
  exact h x hx

/-- A form that nothing lowers is least where all symbols are zero. -/
theorem Row.constant_le_value_of_lowest {o : Row Rat}
    (hint : o.Internal) (hlow : o.Lowest) {v : Symbol → Rat}
    (hv : Tableau.Proper v) : o.constant ≤ o.value v := by
  refine Row.constant_le_value fun x => ?_
  cases hx : x.isExternal with
  | true => rw [hint x hx, zero_mul]
  | false =>
      cases hd : x.isDummy with
      | true => rw [hv.dummy hd, mul_zero]
      | false => exact mul_nonneg (hlow x hd) (hv.nonneg hx)

namespace Tableau

variable {t t' : Tableau Rat}

/-- Solutions that are larger at all symbols but external ones are worth
no less. -/
def Monotone (t : Tableau Rat) (o : Row Rat) : Prop :=
  ∀ v w, t.Solves v → t.Solves w →
    (∀ x, x.isExternal = false → v x ≤ w x) → o.value v ≤ o.value w

/-- Where external symbols do not occur in the rows of others, they do not
occur in monotone objectives either: they would move nothing else. -/
theorem Monotone.internal (hc : t.Canonical)
    (hrows : ∀ {b r}, t.rows.get? b = some r → b.isExternal = false →
      r.Internal) {o : Row Rat} (ho : t.Form o) (hmono : t.Monotone o) :
    o.Internal := by
  intro x hx
  have hsame : ∀ y, y.isExternal = false →
      t.complete (Row.unit x) y = t.solution y := by
    intro y hy
    by_cases hb : t.IsBasic y
    · obtain ⟨r, hr⟩ := hb
      rw [complete_unit_of_row hr, hrows hr hy x hx, add_zero]
    · rw [complete_of_not_basic hb, solution_of_not_basic hb,
        Row.unit_of_ne (Symbol.ne_of_test hx hy).symm]
  have hsol := hc.solves_solution
  have hunit := hc.solves_complete (Row.unit x)
  have h₁ := hmono _ _ hsol hunit fun y hy => le_of_eq (hsame y hy).symm
  have h₂ := hmono _ _ hunit hsol fun y hy => le_of_eq (hsame y hy)
  rw [hc.value_complete_unit ho] at h₁ h₂
  linarith

-- ====================================================== the candidates

theorem entering?_spec {o : Row Rat} {s : Symbol}
    (h : entering? o = some s) :
    s.isDummy = false ∧ o.coefficient s < 0 := by
  obtain ⟨c, hc, hdummy, hneg⟩ := cell_of_entering? h
  rw [Row.coefficient_of_get? hc]
  exact ⟨hdummy, hneg⟩

/-- The search finds no symbol to enter exactly where it should end. -/
theorem lowest_of_entering? {o : Row Rat} (h : entering? o = none) :
    o.Lowest := by
  intro x hx
  by_cases h0 : o.coefficient x = 0
  · rw [h0]
  · exact not_lt.1
      (entering?_eq_none_iff.1 h x _ (Row.get?_of_coefficient_ne h0) hx)

theorem mem_limits {s b : Symbol} {q : Rat} :
    (b, q) ∈ t.limits s ↔ ∃ r, t.rows.get? b = some r
      ∧ b.isExternal = false ∧ r.coefficient s < 0
      ∧ q = -r.constant / r.coefficient s := by
  unfold limits
  rw [List.mem_filterMap]
  constructor
  · intro hin
    obtain ⟨⟨b', r⟩, hmem, h⟩ := hin
    dsimp only at h
    split at h
    · cases h
    case isFalse hb =>
      split at h
      case isTrue hneg =>
        have hp := Option.some.inj h
        injection hp with hb' hq
        subst hb'
        exact ⟨r, Table.get?_eq_some_iff.2 hmem,
          Bool.not_eq_true _ ▸ hb, hneg, hq.symm⟩
      · cases h
  · intro hin
    obtain ⟨r, hr, hb, hneg, rfl⟩ := hin
    refine ⟨(b, r), Table.get?_eq_some_iff.1 hr, ?_⟩
    dsimp only
    rw [if_neg (by rw [hb]; exact Bool.false_ne_true)]
    exact if_pos hneg

/-- The leaving row is restricted, it falls as the symbol grows, and no
restricted row is zero before it. -/
theorem leaving?_spec {s b : Symbol} (h : t.leaving? s = some b) :
    ∃ r, t.rows.get? b = some r ∧ b.isExternal = false
      ∧ r.coefficient s < 0
      ∧ ∀ b' r', t.rows.get? b' = some r' → b'.isExternal = false →
          r'.coefficient s < 0 →
          -r.constant / r.coefficient s
            ≤ -r'.constant / r'.coefficient s := by
  obtain ⟨q, hmem, hmin⟩ := Scalar.leastRatio_spec h
  obtain ⟨r, hr, hb, hneg, rfl⟩ := mem_limits.1 hmem
  refine ⟨r, hr, hb, hneg, fun b' r' hr' hb' hneg' => ?_⟩
  exact hmin _ (mem_limits.2 ⟨r', hr', hb', hneg', rfl⟩)

/-- Where no row leaves, no restricted row falls. -/
theorem coefficient_nonneg_of_leaving? {s : Symbol}
    (h : t.leaving? s = none) {b : Symbol} {r : Row Rat}
    (hr : t.rows.get? b = some r) (hb : b.isExternal = false) :
    0 ≤ r.coefficient s := by
  by_contra hneg
  have hmem := mem_limits.2 ⟨r, hr, hb, not_le.1 hneg, rfl⟩
  rw [Scalar.leastRatio_eq_none h] at hmem
  cases hmem

-- ============================================================ one step

/-- What a step of the search does when it goes on. -/
theorem primalStep_eq_next {goal : Goal}
    (h : primalStep goal t = .next t') :
    ∃ o s b r d, t.goalRow? goal = some o ∧ entering? o = some s
      ∧ t.leaving? s = some b ∧ t.Pivot b s r d
      ∧ t' = (t.without b).install s d := by
  cases primalStep_eq_iff.1 h with
  | @pivot o s b _ objective enters leaves exchange =>
      obtain ⟨r, hr, -, hneg, -⟩ := leaving?_spec leaves
      obtain ⟨d, hp, rfl⟩ := pivot_of_exchange? exchange hr (ne_of_lt hneg)
      exact ⟨o, s, b, r, d, objective, enters, leaves, hp, rfl⟩

/-- Where a step of the search stops, and why. -/
theorem primalStep_eq_stop {goal : Goal} {res : Except Failure Unit}
    (h : primalStep goal t = .stop t' res) :
    t' = t
      ∧ (res = .ok () → ∀ o, t.goalRow? goal = some o → o.Lowest)
      ∧ ∀ f, res = .error f → f = .absentSymbol
          ∨ f = .unboundedObjective ∧ ∃ o s, t.goalRow? goal = some o
              ∧ o.coefficient s < 0 ∧ t.leaving? s = none := by
  cases primalStep_eq_iff.1 h with
  | lowest enters =>
      refine ⟨rfl, fun _ o ho => lowest_of_entering? ?_,
        fun f hf => by cases hf⟩
      rwa [ho, Option.bind_some] at enters
  | unbounded objective enters leaves =>
      refine ⟨rfl, fun he => (by cases he), fun f hf => Or.inr ?_⟩
      exact ⟨(Except.error.inj hf).symm, _, _, objective,
        (entering?_spec enters).2, leaves⟩
  | absent =>
      exact ⟨rfl, fun he => (by cases he),
        fun f hf => Or.inl (Except.error.inj hf).symm⟩

/-- A step that goes on restates the tableau. -/
theorem primalStep_restates {goal : Goal} (hc : t.Canonical)
    (h : primalStep goal t = .next t') : t.Restates t' := by
  obtain ⟨o, s, b, r, d, -, -, hb, hp, rfl⟩ := primalStep_eq_next h
  obtain ⟨r', hr', hext, -⟩ := leaving?_spec hb
  exact hp.restates hc hext

/-- A symbol that lowers a row which is not negative enters at a value
that is not negative. -/
theorem Pivot.constant_nonneg {b s : Symbol} {r d : Row Rat}
    (hs : ¬ t.IsBasic s) (hp : t.Pivot b s r d) (hr : 0 ≤ r.constant)
    (hneg : r.coefficient s < 0) : 0 ≤ d.constant := by
  rw [hp.constant hs]
  exact div_nonneg_of_nonpos (neg_nonpos.2 hr) (le_of_lt hneg)

/-- Where the row that leaves is one of the first to reach zero, no
restricted row turns negative. -/
theorem Pivot.feasible {b s : Symbol} {r d : Row Rat}
    (hs : ¬ t.IsBasic s) (hp : t.Pivot b s r d)
    (hb : t.leaving? s = some b) (hf : t.Feasible) :
    ((t.without b).install s d).Feasible := by
  obtain ⟨r', hr', hext, hneg, hmin⟩ := leaving?_spec hb
  have hrr : r = r' := Option.some.inj (hp.row.symm.trans hr')
  subst hrr
  have hd := hp.constant hs
  have hd0 := hp.constant_nonneg hs (hf b r hp.row hext) hneg
  refine feasible_install (fun _ => hd0) fun b₁ r₁ hr₁ hb₁ => ?_
  have hr₁ := (get?_of_without hr₁).2
  have h₁ := hf b₁ r₁ hr₁ hb₁
  by_cases hc₁ : 0 ≤ r₁.coefficient s
  · exact add_nonneg h₁ (mul_nonneg hc₁ hd0)
  · -- the row falls, but is not at zero before the leaving one is
    have hc₁ := not_le.1 hc₁
    have hq := hmin b₁ r₁ hr₁ hb₁ hc₁
    rw [← hd, le_div_iff_of_neg hc₁] at hq
    linarith

/-- The ratio test keeps a feasible tableau feasible. -/
theorem primalStep_feasible {goal : Goal} (hc : t.Canonical)
    (hf : t.Feasible) (h : primalStep goal t = .next t') :
    t'.Feasible := by
  obtain ⟨o, s, b, r, d, -, -, hb, hp, rfl⟩ := primalStep_eq_next h
  exact hp.feasible (hp.not_basic hc) hb hf

/-- Only symbols that are no dummies enter, so basic dummies stay idle. -/
theorem primalStep_dummiesIdle {goal : Goal} (hidle : t.DummiesIdle)
    (h : primalStep goal t = .next t') : t'.DummiesIdle := by
  obtain ⟨o, s, b, r, d, -, hs, -, -, rfl⟩ := primalStep_eq_next h
  have hsd := (entering?_spec hs).1
  refine dummiesIdle_install (hidle.without b) (fun b₁ r₁ hr₁ hb₁ => ?_)
    fun h => by rw [hsd] at h; cases h
  exact (hidle b₁ r₁ (get?_of_without hr₁).2 hb₁).2 s hsd

-- ========================================================== the search

section Minimise

variable (budget : Nat) (goal : Goal)

/-- What every step keeps holds where the search ends. -/
private theorem minimise_induction {P : Tableau Rat → Prop}
    (hnext : ∀ s s', P s → primalStep goal s = .next s' → P s')
    (h : P t) : P (t.minimise budget goal).state := by
  rcases iterate_induction hnext budget t h with ⟨-, hP⟩ | ⟨s, hP, hs⟩
  · exact hP
  · have := (primalStep_eq_stop hs).1
    exact this ▸ hP

theorem minimise_restates (hc : t.Canonical) :
    t.Restates (t.minimise budget goal).state :=
  minimise_induction budget goal
    (fun _ _ h hs => h.trans (primalStep_restates h.canonical hs))
    (Restates.refl hc)

theorem minimise_feasible (hc : t.Canonical) (hf : t.Feasible) :
    (t.minimise budget goal).state.Feasible := by
  have key : (t.minimise budget goal).state.Canonical
      ∧ (t.minimise budget goal).state.Feasible := by
    refine minimise_induction budget goal
      (P := fun s => s.Canonical ∧ s.Feasible) (fun s s' h hs => ?_)
      ⟨hc, hf⟩
    exact ⟨(primalStep_restates h.1 hs).canonical,
      primalStep_feasible h.1 h.2 hs⟩
  exact key.2

theorem minimise_dummiesIdle (hidle : t.DummiesIdle) :
    (t.minimise budget goal).state.DummiesIdle :=
  minimise_induction budget goal (P := fun s => s.DummiesIdle)
    (fun _ _ h hs => primalStep_dummiesIdle h hs) hidle

variable {budget goal} in
/-- A search that ends well has reached a form that nothing lowers. -/
theorem lowest_of_minimise
    (hok : (t.minimise budget goal).result = .ok ()) {o : Row Rat}
    (ho : (t.minimise budget goal).state.goalRow? goal = some o) :
    o.Lowest := by
  rcases iterate_induction (P := fun _ => True) (fun _ _ _ _ => trivial)
    budget t trivial with ⟨hspent, -⟩ | ⟨s, -, hs⟩
  · have := hok.symm.trans hspent
    cases this
  · obtain ⟨hst, hlow, -⟩ := primalStep_eq_stop hs
    exact hlow hok o (hst ▸ ho)

/-- One unit of a symbol that nothing limits gives a solution that is
larger at all symbols but external ones. -/
private theorem le_complete_unit {s : Symbol}
    (hlim : t.leaving? s = none) {x : Symbol}
    (hx : x.isExternal = false) :
    t.solution x ≤ t.complete (Row.unit s) x := by
  by_cases hb : t.IsBasic x
  · obtain ⟨r, hr⟩ := hb
    rw [complete_unit_of_row hr]
    have := coefficient_nonneg_of_leaving? hlim hr hx
    linarith
  · rw [solution_of_not_basic hb, complete_of_not_basic hb]
    by_cases hxs : x = s
    · rw [hxs, Row.unit_self]
      exact zero_le_one
    · rw [Row.unit_of_ne hxs]

/-- A search for the minimum of a monotone form is bounded: where it
fails, it has not come to an end. -/
theorem error_of_minimise (hc : t.Canonical) {o : Row Rat}
    (ho : t.goalRow? goal = some o) (hmono : t.Monotone o) {f : Failure}
    (h : (t.minimise budget goal).result = .error f) :
    f = .absentSymbol ∨ f = .budgetSpent := by
  rcases iterate_induction (P := fun s => t.Restates s)
    (fun _ _ h hs => h.trans (primalStep_restates h.canonical hs))
    budget t (Restates.refl hc) with ⟨hspent, -⟩ | ⟨t₁, hre, hs⟩
  · exact Or.inr (Except.error.inj (h.symm.trans hspent))
  · obtain ⟨-, -, hstop⟩ := primalStep_eq_stop hs
    rcases hstop f h with hf | ⟨-, o₁, s, ho₁, hneg, hlim⟩
    · exact Or.inl hf
    -- one unit of `s` is a larger solution, but the objective is less there
    exfalso
    have hform : t₁.Form o₁ := by
      cases goal with
      | main => exact Option.some.inj ho₁ ▸ .objective
      | auxiliary => exact .auxiliary ho₁
    have hvalue : ∀ v, t.Solves v → o₁.value v = o.value v := by
      intro v hv
      cases goal with
      | main =>
          rw [← Option.some.inj ho₁, ← Option.some.inj ho]
          exact hre.objective v hv
      | auxiliary =>
          have h := hre.auxiliary v hv
          have ho₁' : t₁.auxiliary = some o₁ := ho₁
          have ho' : t.auxiliary = some o := ho
          rw [ho₁', ho'] at h
          exact Option.some.inj h
    have hc₁ := hre.canonical
    have hsol := (hre.solves _).1 hc₁.solves_solution
    have hunit := (hre.solves _).1 (hc₁.solves_complete (Row.unit s))
    have hle := hmono _ _ hsol hunit fun x hx => le_complete_unit hlim hx
    rw [← hvalue _ hsol, ← hvalue _ hunit,
      hc₁.value_complete_unit hform] at hle
    linarith

end Minimise

end Tableau

end LinearConstraints
