/-
Registration: what adding a constraint comes to.

A constraint is posed, its row enters the tableau, and the objective is
lowered again. The row enters by a definition or by adjunction, and both
leave a tableau that says the new equation and nothing else. It is refused
only if the constraint is required and no proper valuation balances it
together with the others.

Main statement: `register_cases`: the outcomes of registration, and what
the solver is afterwards in each of them.
-/
import LinearConstraints.Proofs.Adjunction
import LinearConstraints.Proofs.Consistent

namespace LinearConstraints.Solver

open Function (update)

variable {s s' : Solver Rat} {goal : Nat → Rat} {budget : Nat}

-- ============================================================ settling

theorem isFatal_failure {f : Tableau.Failure}
    (h : f = .absentSymbol ∨ f = .budgetSpent) :
    (Error.failure f : Error Rat).isFatal = true := by
  rcases h with rfl | rfl <;> rfl

/-- Settling keeps a solver consistent. -/
theorem Consistent.settle (h : s.Consistent goal) (budget : Nat) :
    (s.settle budget).state.Consistent goal :=
  h.restate (Tableau.minimise_restates budget .main h.canonical)

/-- Settling fails only where it does not come to an end. -/
theorem Consistent.error_of_settle (h : s.Consistent goal) {e : Error Rat}
    (he : (s.settle budget).result = .error e) : e.isFatal = true := by
  obtain ⟨f, hf, rfl⟩ := error_of_onTableau he
  exact isFatal_failure
    (Tableau.error_of_minimise budget .main h.canonical rfl h.monotone hf)

/-- Settling a feasible solver brings it to a minimum. -/
theorem Consistent.settled_of_settle (h : s.Consistent goal)
    (hf : s.tableau.Feasible) (hd : s.tableau.DummiesIdle)
    (hok : (s.settle budget).result = .ok ()) :
    (s.settle budget).state.Settled where
  feasible := Tableau.minimise_feasible budget .main h.canonical hf
  dummiesIdle := Tableau.minimise_dummiesIdle budget .main hd
  lowest := Tableau.lowest_of_minimise (ok_of_onTableau hok) rfl

-- ========================================================== the subject

section Subject

variable {c : Constraint Rat} {r : Row Rat} {f : Footprint} {x : Symbol}

private theorem internal_of_find? (hred : r.Reduced)
    (h : r.symbols.find? Symbol.isExternal = none) : r.Internal := by
  intro x hx
  by_contra hne
  exact List.find?_eq_none.1 h x (hred.mem_symbols_iff.2 hne) hx

private theorem mentions_iff :
    x ∈ f.marker :: f.companion.toList ↔ f.Mentions x := by
  unfold Footprint.Mentions
  rw [List.mem_cons, Option.mem_toList]

/-- The subject of a row is external, or one of the footprint's symbols
with a negative coefficient. -/
theorem pivotFor?_spec (hred : r.Reduced) (h : pivotFor? r f = some x) :
    r.coefficient x ≠ 0
      ∧ (x.isExternal = true
        ∨ r.Internal ∧ f.Mentions x ∧ x.isPivotable = true
          ∧ r.coefficient x < 0) := by
  unfold pivotFor? at h
  cases hext : r.symbols.find? Symbol.isExternal with
  | some y =>
      rw [hext, Option.some_or] at h
      obtain rfl := Option.some.inj h
      exact ⟨hred.mem_symbols_iff.1 (List.mem_of_find?_eq_some hext),
        Or.inl (List.find?_some hext)⟩
  | none =>
      rw [hext, Option.none_or] at h
      have hmem := mentions_iff.1 (List.mem_of_find?_eq_some h)
      have htest := List.find?_some h
      simp only [Bool.and_eq_true, decide_eq_true_eq] at htest
      exact ⟨ne_of_lt htest.2, Or.inr ⟨internal_of_find? hred hext, hmem,
        htest.1, htest.2⟩⟩

theorem pivotFor?_eq_none (hred : r.Reduced)
    (h : pivotFor? r f = none) :
    r.Internal ∧ ∀ y, f.Mentions y → y.isPivotable = true →
      0 ≤ r.coefficient y := by
  unfold pivotFor? at h
  obtain ⟨hext, hfind⟩ := Option.or_eq_none_iff.1 h
  refine ⟨internal_of_find? hred hext, fun y hy hp => ?_⟩
  have hno := List.find?_eq_none.1 hfind y (mentions_iff.2 hy)
  rw [hp, Bool.true_and, decide_eq_true_eq] at hno
  exact not_lt.1 hno

/-- The coefficient of the marker is one or minus one. -/
theorem Poses.marker_eq_or (hp : s.Poses c r f s') :
    r.coefficient f.marker = 1 ∨ r.coefficient f.marker = -1 := by
  obtain ⟨k, hk, -, hm, -⟩ := hp.value
  rw [hm]
  rcases hk with rfl | rfl <;> rcases c.sign_eq_or with h | h <;>
    rw [h] <;> norm_num

theorem Poses.marker_ne (hp : s.Poses c r f s') :
    r.coefficient f.marker ≠ 0 := by
  rcases hp.marker_eq_or with h | h <;> rw [h] <;> norm_num

/-- The companion has the coefficient of the marker, its sign changed. -/
theorem Poses.companion_eq (hp : s.Poses c r f s') {y : Symbol}
    (hy : f.companion = some y) :
    r.coefficient y = -r.coefficient f.marker := by
  obtain ⟨k, -, -, hm, hcomp⟩ := hp.value
  rw [hm, hcomp y hy]

/-- The two symbols of a constraint that is not required stand in its row
with opposite signs, so it never lacks a subject. -/
theorem Poses.required_of_pivotFor? (hp : s.Poses c r f s')
    (h : pivotFor? r f = none) : c.strength.isRequired = true := by
  obtain ⟨-, hnonneg⟩ := pivotFor?_eq_none hp.written.reduced h
  -- one of the two would be negative
  have hno : ∀ y, f.companion = some y → f.marker.isPivotable = true →
      y.isPivotable = true → False := by
    intro y hcomp hmp hyp
    have h₁ := hnonneg f.marker (Or.inl rfl) hmp
    have h₂ := hnonneg y (Or.inr hcomp) hyp
    rw [hp.companion_eq hcomp] at h₂
    rcases hp.marker_eq_or with h | h
    · rw [h] at h₂
      norm_num at h₂
    · rw [h] at h₁
      norm_num at h₁
  cases hp.fits with
  | dummy _ required => exact required
  | slack _ required => exact required
  | errors y _ _ marker companion kind =>
      refine (hno y companion ?_ ?_).elim <;> unfold Symbol.isPivotable
      · rw [marker]
        rfl
      · rw [kind]
        rfl
  | slackened y _ _ marker companion kind =>
      refine (hno y companion ?_ ?_).elim <;> unfold Symbol.isPivotable
      · rw [marker]
        rfl
      · rw [kind]
        rfl

end Subject

-- ============================================================ entering

section Enter

variable {c : Constraint Rat} {r : Row Rat} {f : Footprint} {x : Symbol}
  {s₁ : Solver Rat}

/-- What entering a row comes to: the tableau says that the row is zero,
and is as feasible as before. -/
structure Enters (s : Solver Rat) (r : Row Rat) (s' : Solver Rat) :
    Prop where
  extend : s.Extends s'
  symbol? : ∀ x, s'.symbol? x = s.symbol? x
  adjoins : s.tableau.Adjoins r s'.tableau
  feasible : s.tableau.Feasible → s'.tableau.Feasible
  dummiesIdle : s.tableau.DummiesIdle → s'.tableau.DummiesIdle

/-- What a refusal comes to: only required constraints are refused, only
where no proper solution makes the row zero, and nothing but symbols has
been made. -/
structure Refuses (s : Solver Rat) (c : Constraint Rat) (r : Row Rat)
    (s' : Solver Rat) : Prop where
  required : c.strength.isRequired = true
  extend : s.Extends s'
  symbol? : ∀ x, s'.symbol? x = s.symbol? x
  tableau : s'.tableau = s.tableau
  value_ne : s.tableau.Feasible → s.tableau.DummiesIdle → ∀ v,
    s.tableau.Solves v → Tableau.Proper v → r.value v ≠ 0

/-- No row mentions a symbol of the footprint yet. -/
theorem Poses.coefficient_of_mentions (hp : s.Poses c r f s₁)
    (hg : s.Grounded) (hx : f.Mentions x) {b : Symbol} {d : Row Rat}
    (hd : s₁.tableau.rows.get? b = some d) : d.coefficient x = 0 := by
  rw [hp.tableau] at hd
  exact (hg.fresh (hp.made hx).1).coefficient (.row hd)

/-- Solving the row for a symbol enters it. The symbol is external, or one
of the footprint's; then its value in the solution must be one that its
kind allows. -/
private theorem enters_define (hp : s.Poses c r f s₁) (hg : s.Grounded)
    (hsep : s.tableau.Separated) (haux : s.tableau.auxiliary = none)
    (hx : r.coefficient x ≠ 0)
    (hsubject : x.isExternal = true
      ∨ r.Internal ∧ f.Mentions x ∧ 0 ≤ -r.constant / r.coefficient x
        ∧ (x.isDummy = true → r.constant = 0
          ∧ ∀ y, y.isDummy = false → r.coefficient y = 0)) :
    (s₁.define r x).result = .ok ()
      ∧ s₁.Enters r (s₁.define r x).state := by
  have hd := Row.isolate?_of_coefficient_ne hx
  generalize (r.discard x).scaled (-1 / r.coefficient x) = d at hd
  have hdefine : s₁.define r x
      = .ok { s₁ with tableau := s₁.tableau.install x d } () := by
    unfold define
    rw [hd]
  have haux₁ : s₁.tableau.auxiliary = none := by
    rw [hp.tableau]
    exact haux
  have hconst := Row.constant_of_isolate? hx hd
  have hcoef := Row.coefficient_of_isolate? hx hd
  -- no restricted row, and no dummy's, has the symbol
  have hrows : s₁.tableau.Separated → ∀ b r',
      s₁.tableau.rows.get? b = some r' → b.isExternal = false → r'.coefficient x = 0 := by
    intro hsep₁ b r' hr' hb
    rcases hsubject with hext | ⟨-, hm, -⟩
    · exact hsep₁.rows hr' hb x hext
    · exact hp.coefficient_of_mentions hg hm hr'
  have hsep₁ := hp.separated hsep
  rw [hdefine]
  refine ⟨rfl, ⟨rfl, rfl, le_refl _, id⟩, fun _ => rfl, ?_, fun hf => ?_,
    fun hidle => ?_⟩
  · exact Tableau.adjoins_install hp.grounded.canonical hsep₁ haux₁
      hp.written.reduced hp.written.nonbasic
      (hsubject.symm.imp_left And.left) hx hd
  · refine Tableau.feasible_install (fun hb => ?_) fun b r' hr' hb => ?_
    · rcases hsubject with hext | ⟨-, -, hpos, -⟩
      · rw [hext] at hb
        cases hb
      · rw [hconst]
        exact hpos
    · rw [hrows hsep₁ b r' hr' hb, zero_mul, add_zero]
      exact hf b r' hr' hb
  · refine Tableau.dummiesIdle_install hidle (fun b r' hr' hb => ?_)
      fun hdum => ?_
    · exact hrows hsep₁ b r' hr' (Tableau.not_external_of_dummy hb)
    · rcases hsubject with hext | ⟨-, -, -, hdummy⟩
      · rw [Tableau.not_external_of_dummy hdum] at hext
        cases hext
      · obtain ⟨h0, hcells⟩ := hdummy hdum
        refine ⟨by rw [hconst, h0, neg_zero, zero_div], fun y hy => ?_⟩
        rw [hcoef, hcells y hy, neg_zero, zero_div]
        exact ite_self 0

/-- What the adjunction of a row starts from. -/
theorem Poses.adjoinable (hp : s.Poses c r f s₁)
    (hsep : s.tableau.Separated) (hint : r.Internal) :
    s₁.tableau.Adjoinable ⟨.slack, s₁.nextId⟩ r where
  canonical := hp.grounded.canonical
  separated := hp.separated hsep
  reduced := hp.written.reduced
  nonbasic := hp.written.nonbasic
  internal := hint
  unused := hp.grounded.fresh (le_refl _)
  fresh := hp.written.below (le_refl _)
  slack := rfl

/-- A row of dummies alone has no other symbols. -/
private theorem coefficient_of_onlyDummies (hred : r.Reduced)
    (h : r.onlyDummies = true) {y : Symbol} (hy : y.isDummy = false) :
    r.coefficient y = 0 := by
  by_contra hne
  have := List.all_eq_true.1 h y (hred.mem_symbols_iff.2 hne)
  rw [hy] at this
  cases this

private theorem exists_of_not_onlyDummies (hred : r.Reduced)
    (h : ¬ r.onlyDummies = true) :
    ∃ y, y.isDummy = false ∧ r.coefficient y ≠ 0 := by
  by_contra hno
  refine h (List.all_eq_true.2 fun y hy => ?_)
  by_contra hd
  exact hno ⟨y, Bool.not_eq_true _ ▸ hd, hred.mem_symbols_iff.1 hy⟩

/-- A row that has no subject and is not made of dummies alone is adjoined
or refused. -/
private theorem adjoin_cases (hp : s.Poses c r f s₁)
    (hsep : s.tableau.Separated) (hpiv : pivotFor? r f = none)
    (hdum : ¬ r.onlyDummies = true)
    {o : Outcome (Tableau Rat) Tableau.Failure Bool}
    (ho : s₁.tableau.adjoin budget ⟨.slack, s₁.nextId⟩ r = o) :
    (o.result = .ok true
        ∧ s₁.Enters r { s₁ with nextId := s₁.nextId + 1, tableau := o.state })
      ∨ (o.result = .ok false ∧ s₁.Refuses c r
          { s₁ with nextId := s₁.nextId + 1, tableau := o.state })
      ∨ ∃ e, o.result = .error e
          ∧ (e = .absentSymbol ∨ e = .budgetSpent) := by
  have hadj := hp.adjoinable hsep
    (pivotFor?_eq_none hp.written.reduced hpiv).1
  have hext : s₁.Extends
      { s₁ with nextId := s₁.nextId + 1, tableau := o.state } :=
    ⟨rfl, rfl, Nat.le_succ _, id⟩
  subst ho
  cases hres : (s₁.tableau.adjoin budget ⟨.slack, s₁.nextId⟩ r).result with
  | error e =>
      exact Or.inr (Or.inr ⟨e, rfl, Tableau.error_of_adjoin hadj hres⟩)
  | ok found =>
      cases found with
      | true =>
          exact Or.inl ⟨rfl, hext, fun _ => rfl,
            Tableau.adjoins_of_adjoin hadj hres,
            fun hf => Tableau.adjoin_feasible hadj hf hp.constant hres,
            fun hd => Tableau.adjoin_dummiesIdle hadj hd hres⟩
      | false =>
          obtain ⟨y, hy, hne⟩ :=
            exists_of_not_onlyDummies hp.written.reduced hdum
          refine Or.inr (Or.inl ⟨rfl, hp.required_of_pivotFor? hpiv, hext,
            fun _ => rfl, ?_, fun hf hd v hv hv' => ?_⟩)
          · refine Tableau.adjoin_state_of_ne_ok fun h => ?_
            rw [hres] at h
            cases h
          · exact Tableau.value_ne_zero_of_adjoin hadj hf hd hp.constant hy
              hne hres hv hv'

/-- The ways in which a row enters or does not. -/
theorem enter_cases (hp : s.Poses c r f s₁) (hg : s.Grounded)
    (hsep : s.tableau.Separated) (haux : s.tableau.auxiliary = none)
    (budget : Nat) :
    ((s₁.enter budget c r f).result = .ok ()
        ∧ s₁.Enters r (s₁.enter budget c r f).state)
      ∨ ((s₁.enter budget c r f).result = .error (s₁.unsatisfiable c)
        ∧ s₁.Refuses c r (s₁.enter budget c r f).state)
      ∨ ∃ e, (s₁.enter budget c r f).result = .error e
        ∧ e.isFatal = true := by
  have hred := hp.written.reduced
  unfold enter
  cases hpiv : pivotFor? r f with
  | some x =>
      -- the symbol's value in the solution will not be negative
      obtain ⟨hne, hsubject⟩ := pivotFor?_spec hred hpiv
      refine Or.inl (enters_define hp hg hsep haux hne ?_)
      refine hsubject.imp_right fun ⟨hint, hm, hpv, hneg⟩ => ?_
      refine ⟨hint, hm, div_nonneg_of_nonpos
        (neg_nonpos.2 hp.constant) (le_of_lt hneg), fun hd => ?_⟩
      rw [Symbol.isDummy_of_isPivotable hpv] at hd
      cases hd
  | none =>
      obtain ⟨hint, -⟩ := pivotFor?_eq_none hred hpiv
      dsimp only
      by_cases hdum : r.onlyDummies = true
      · have hcells : ∀ y, y.isDummy = false → r.coefficient y = 0 :=
          fun y hy => coefficient_of_onlyDummies hred hdum hy
        rw [if_pos hdum]
        by_cases h0 : r.constant = 0
        · rw [if_pos (Scalar.nearZero_iff.2 h0)]
          refine Or.inl (enters_define hp hg hsep haux hp.marker_ne (Or.inr
            ⟨hint, Or.inl rfl, ?_, fun _ => ⟨h0, hcells⟩⟩))
          rw [h0, neg_zero, zero_div]
        · rw [if_neg fun h => h0 (Scalar.nearZero_iff.1 h)]
          refine Or.inr (Or.inl ⟨rfl, hp.required_of_pivotFor? hpiv,
            .refl s₁, fun _ => rfl, rfl, fun _ _ v _ hv => ?_⟩)
          rwa [Row.value_eq_constant fun y => ?_]
          cases hy : y.isDummy with
          | true => rw [hv.dummy hy, mul_zero]
          | false => rw [hcells y hy, zero_mul]
      · rw [if_neg hdum]
        dsimp only [fresh]
        generalize ho : s₁.tableau.adjoin budget ⟨.slack, s₁.nextId⟩ r = o
        rcases adjoin_cases hp hsep hpiv hdum ho with
          ⟨hres, hent⟩ | ⟨hres, href⟩ | ⟨e, hres, he⟩
        · refine Or.inl ?_
          unfold onTableau Outcome.andThen
          dsimp only
          rw [hres]
          exact ⟨rfl, hent⟩
        · refine Or.inr (Or.inl ?_)
          unfold onTableau Outcome.andThen
          dsimp only
          rw [hres]
          exact ⟨rfl, href⟩
        · refine Or.inr (Or.inr ⟨.failure e, ?_, isFatal_failure he⟩)
          unfold onTableau Outcome.andThen
          dsimp only
          rw [hres]
          rfl

/-- A row for which entering ends well has entered. -/
theorem Poses.enters_of_ok (hp : s.Poses c r f s₁) (h : s.Consistent goal)
    (hok : (s₁.enter budget c r f).result = .ok ()) :
    s₁.Enters r (s₁.enter budget c r f).state := by
  rcases enter_cases hp h.toGrounded h.separated h.auxiliary budget with
    ⟨-, hent⟩ | ⟨hout, -⟩ | ⟨e, hout, -⟩
  · exact hent
  · rw [hok] at hout
    cases hout
  · rw [hok] at hout
    cases hout

/-- A row that enters is solved for a symbol, which is the marker if it is
a dummy, or is adjoined under an artificial symbol. -/
theorem Poses.entry_cases (hp : s.Poses c r f s₁)
    (hsep : s.tableau.Separated)
    (hok : (s₁.enter budget c r f).result = .ok ()) :
    (∃ x d, r.coefficient x ≠ 0 ∧ r.isolate? x = some d
        ∧ (x.isDummy = true → x = f.marker)
        ∧ (s₁.enter budget c r f).state.tableau = s₁.tableau.install x d)
      ∨ s₁.tableau.Adjoinable ⟨.slack, s₁.nextId⟩ r
        ∧ (s₁.tableau.adjoin budget ⟨.slack, s₁.nextId⟩ r).result
          = .ok true
        ∧ (s₁.enter budget c r f).state.tableau
          = (s₁.tableau.adjoin budget ⟨.slack, s₁.nextId⟩ r).state := by
  have hred := hp.written.reduced
  have hdefine : ∀ x, r.coefficient x ≠ 0 →
      (x.isDummy = true → x = f.marker) →
      ∃ x' d, r.coefficient x' ≠ 0 ∧ r.isolate? x' = some d
        ∧ (x'.isDummy = true → x' = f.marker)
        ∧ (s₁.define r x).state.tableau = s₁.tableau.install x' d := by
    intro x hne hdum
    have hd := Row.isolate?_of_coefficient_ne hne
    refine ⟨x, _, hne, hd, hdum, ?_⟩
    unfold define
    rw [hd]
    rfl
  unfold enter at hok ⊢
  cases hpiv : pivotFor? r f with
  | some x =>
      obtain ⟨hne, hsubject⟩ := pivotFor?_spec hred hpiv
      refine Or.inl (hdefine x hne fun hd => ?_)
      rcases hsubject with hext | ⟨-, -, hpv, -⟩
      · rw [Tableau.not_external_of_dummy hd] at hext
        cases hext
      · rw [Symbol.isDummy_of_isPivotable hpv] at hd
        cases hd
  | none =>
      rw [hpiv] at hok
      dsimp only at hok ⊢
      by_cases hdum : r.onlyDummies = true
      · rw [if_pos hdum] at hok ⊢
        by_cases h0 : Scalar.nearZero r.constant = true
        · rw [if_pos h0]
          exact Or.inl (hdefine f.marker hp.marker_ne fun _ => rfl)
        · rw [if_neg h0] at hok
          cases hok
      · rw [if_neg hdum] at hok ⊢
        have hadj := hp.adjoinable hsep (pivotFor?_eq_none hred hpiv).1
        dsimp only [fresh] at hok ⊢
        unfold onTableau Outcome.andThen at hok ⊢
        dsimp only at hok ⊢
        cases hres : (s₁.tableau.adjoin budget ⟨.slack, s₁.nextId⟩ r).result
          with
        | error e =>
            rw [hres] at hok
            cases hok
        | ok found =>
            rw [hres] at hok
            cases found with
            | true => exact Or.inr ⟨hadj, rfl, rfl⟩
            | false => cases hok

end Enter

-- ========================================================= registering

section Register

variable {c : Constraint Rat} {r : Row Rat} {f : Footprint}
  {s₁ s₂ : Solver Rat}

/-- The solver with one more registration. -/
def withRegistration (s : Solver Rat) (c : Constraint Rat)
    (f : Footprint) : Solver Rat :=
  { s with registry := s.registry.insert c.id ⟨c, f⟩ }

theorem get?_withRegistration (s : Solver Rat) (c : Constraint Rat)
    (f : Footprint) (i : Nat) :
    (s.withRegistration c f).registry.get? i
      = if c.id = i then some ⟨c, f⟩ else s.registry.get? i :=
  Table.get?_insert s.registry c.id i ⟨c, f⟩

theorem get?_withRegistration_of_get? {i : Nat} {g : Registration Rat}
    (hnew : s.registry.get? c.id = none)
    (hi : s.registry.get? i = some g) :
    (s.withRegistration c f).registry.get? i = some g := by
  rw [get?_withRegistration, if_neg (Table.ne_of_get? hi hnew).symm, hi]

/-- The constraint adds its errors to the penalty. -/
theorem penalty_withRegistration (hnew : s.registry.get? c.id = none)
    (v : Symbol → Rat) :
    (s.withRegistration c f).penalty v
      = s.penalty v + c.strength.value * f.errors v := by
  have h := s.registry.sum_insert c.id ⟨c, f⟩ fun _ g => g.penalty v
  rw [hnew, Option.elim_none, add_zero] at h
  exact h

theorem get?_of_not_contains (h : s.contains c = false) :
    s.registry.get? c.id = none := by
  unfold contains Table.contains at h
  exact Option.not_isSome_iff_eq_none.1 (by rw [h]; exact Bool.false_ne_true)

/-- The symbols that a constraint is posed with belong to no other. -/
theorem Poses.free (hp : s.Poses c r f s₁) (h : s.Orderly) {x : Symbol}
    (hx : f.Mentions x) : s.Free x := by
  intro i g hi hm
  exact absurd (h.registered hi |>.below hm)
    (not_lt.2 (hp.made hx).1)

/-- A symbol made before that belonged to no constraint still belongs to
none. -/
theorem Poses.free_withRegistration (hp : s.Poses c r f s₁)
    (hx : s₁.Extends s₂) {x : Symbol} (hid : x.id < s.nextId)
    (hfree : s.Free x) : (s₂.withRegistration c f).Free x := by
  intro i g hi hm
  rw [get?_withRegistration] at hi
  split at hi
  · obtain rfl := Option.some.inj hi
    exact absurd hid (not_lt.2 (hp.made hm).1)
  · exact hfree i g ((hp.extend.trans hx).registry ▸ hi) hm

variable (hp : s.Poses c r f s₁) (hweight : 0 ≤ c.strength.value)
  (hnew : s.registry.get? c.id = none) (hx : s₁.Extends s₂)
  (hsym : ∀ x, s₂.symbol? x = s₁.symbol? x)

include hp hweight hx hsym in
/-- Registering a constraint that has been posed keeps the registry in
order. -/
theorem Orderly.register (h : s.Orderly) :
    (s₂.withRegistration c f).Orderly where
  wellBound := by
    have hw := hp.grounded.wellBound
    refine ⟨fun h => hw.external (hsym _ ▸ h), fun h => ?_,
      fun h h' => hw.injective (hsym _ ▸ h) (hsym _ ▸ h')⟩
    exact lt_of_lt_of_le (hw.below (hsym _ ▸ h)) hx.nextId
  registered := by
    intro i g hi
    rw [get?_withRegistration] at hi
    split at hi
    case isTrue hci =>
      obtain rfl := Option.some.inj hi
      refine ⟨hci, hweight, hp.fits, hp.apart, fun hm => ?_,
        fun t ht h0 => ?_⟩
      · exact lt_of_lt_of_le (hp.made hm).2 hx.nextId
      · obtain ⟨y, hy⟩ := hp.bound t ht h0
        exact ⟨y, hx.bound hy⟩
    · rw [hx.registry, hp.extend.registry] at hi
      have hext := hp.extend.trans hx
      exact (h.registered hi).mono hext.nextId hext.bound
  disjoint := by
    have hnew : ∀ {i g x}, s.registry.get? i = some g →
        g.footprint.Mentions x → ¬ f.Mentions x :=
      fun hi hm hm' => hp.free h hm' _ _ hi hm
    intro i j g g' x hi hj hm hm'
    rw [get?_withRegistration, hx.registry, hp.extend.registry] at hi hj
    split at hi
    case isTrue hci =>
      obtain rfl := Option.some.inj hi
      split at hj
      case isTrue hcj => exact hci.symm.trans hcj
      · exact absurd hm (hnew hj hm')
    · split at hj
      · obtain rfl := Option.some.inj hj
        exact absurd hm' (hnew hi hm)
      · exact h.disjoint hi hj hm hm'

include hp hnew hx in
/-- What it takes to balance one constraint more. -/
theorem balances_withRegistration (h : s.Orderly) (goal : Nat → Rat)
    (v : Symbol → Rat) :
    (s₂.withRegistration c f).Balances (update goal c.id 0) v
      ↔ s.Balances goal v
        ∧ c.expression.valueUnder (s₂.read v) + c.sign * f.gap v = 0 := by
  have hext := hp.extend.trans hx
  have hnew₂ : s₂.registry.get? c.id = none := hext.registry ▸ hnew
  -- the others read their variables as before
  have hold : ∀ {i g}, s.registry.get? i = some g →
      (g.Balanced (s₂.read v) (update goal c.id 0 i) v
        ↔ g.Balanced (s.read v) (goal i) v) := by
    intro i g hi
    unfold Registration.Balanced
    rw [Function.update_of_ne (Table.ne_of_get? hi hnew),
      hext.valueUnder_read (h.registered hi).bound]
  constructor
  · intro hb
    refine ⟨fun i g hi => (hold hi).1 (hb i g ?_), ?_⟩
    · exact get?_withRegistration_of_get? hnew₂ (hext.registry ▸ hi)
    · have := hb c.id ⟨c, f⟩ (by rw [get?_withRegistration, if_pos rfl])
      unfold Registration.Balanced at this
      rwa [Function.update_self] at this
  · intro hboth i g hi
    obtain ⟨hb, hc⟩ := hboth
    rw [get?_withRegistration] at hi
    split at hi
    case isTrue hci =>
      obtain rfl := Option.some.inj hi
      subst hci
      show _ = update goal c.id 0 c.id
      rw [Function.update_self]
      exact hc
    · rw [hext.registry] at hi
      exact (hold hi).2 (hb i g hi)

include hp in
/-- At a solution the row of the constraint is zero exactly where the
constraint is balanced. -/
theorem Poses.value_eq_zero_iff {v : Symbol → Rat}
    (hv : s.tableau.Solves v) :
    r.value v = 0
      ↔ c.expression.valueUnder (s₁.read v) + c.sign * f.gap v = 0 := by
  obtain ⟨k, hk, hval, -⟩ := hp.value
  rw [hval v hv]
  have hk0 : k ≠ 0 := by rcases hk with rfl | rfl <;> norm_num
  exact ⟨fun h => (mul_eq_zero.1 h).resolve_left hk0,
    fun h => by rw [h, mul_zero]⟩

include hp in
/-- What was left over still is once the constraint is registered. -/
theorem Leftover.register {rest : Row Rat} (h : s.Leftover rest)
    (he : s₁.Enters r s₂) : (s₂.withRegistration c f).Leftover rest :=
  h.mono (hp.extend.trans he.extend).nextId fun hid hfree =>
    hp.free_withRegistration he.extend hid hfree

include hp hnew in
/-- The objective of a constraint that has entered is worth its penalty
too. -/
theorem Owes.register {rest : Row Rat} (h : s.Owes rest)
    (he : s₁.Enters r s₂) : (s₂.withRegistration c f).Owes rest := by
  intro v hv
  obtain ⟨hv₀, -⟩ := (he.adjoins.solves v).1 hv
  rw [hp.tableau] at hv₀
  have hext := hp.extend.trans he.extend
  have hpen : s₂.penalty v = s.penalty v := by
    unfold penalty
    rw [hext.registry]
  show s₂.tableau.objective.value v = _
  rw [he.adjoins.objective v hv, hp.objective, h v hv₀,
    penalty_withRegistration (hext.registry ▸ hnew), hpen]
  ring

include hp hweight hnew in
/-- A constraint that has entered may be registered: the solver is
consistent with zero as its goal. -/
theorem Consistent.register (h : s.Consistent goal)
    (he : s₁.Enters r s₂) :
    (s₂.withRegistration c f).Consistent (update goal c.id 0) where
  toOrderly := h.toOrderly.register hp hweight he.extend he.symbol?
  canonical := he.adjoins.canonical
  fresh := by
    intro x hx
    have hx₁ : s₁.nextId ≤ x.id := le_trans he.extend.nextId hx
    exact he.adjoins.unused (hp.grounded.fresh hx₁) (hp.written.below hx₁)
  separated := he.adjoins.separated
  auxiliary := he.adjoins.auxiliary
  required := by
    intro i g hi hreq
    rw [get?_withRegistration] at hi
    split at hi
    case isTrue hci => rw [← hci, Function.update_self]
    case isFalse hci =>
      rw [he.extend.registry, hp.extend.registry] at hi
      rw [Function.update_of_ne (Ne.symm hci)]
      exact h.required hi hreq
  solves := by
    intro v
    have hrows : s₁.tableau.Solves v ↔ s.tableau.Solves v := by
      rw [hp.tableau]
      exact Iff.rfl
    have hread : s₂.read v = s₁.read v := by
      funext x
      unfold read
      rw [he.symbol?]
    show s₂.tableau.Solves v ↔ _
    rw [he.adjoins.solves, hrows,
      balances_withRegistration hp hnew he.extend h.toOrderly, hread,
      ← h.solves]
    exact and_congr_right fun hv => hp.value_eq_zero_iff hv
  objective := by
    obtain ⟨rest, hrest, hobj⟩ := h.objective
    exact ⟨rest, hrest.register hp he, Owes.register hp hnew hobj he⟩
  edits := by
    intro x e hx
    have hext := hp.extend.trans he.extend
    have ht := h.edits (hext.edits ▸ hx)
    refine ht.mono hext.nextId (fun howner => ?_) fun hy hfree =>
      hp.free_withRegistration he.extend (ht.below hy) hfree
    obtain ⟨i, g, hi, hf⟩ := howner
    exact Or.inl ⟨i, g, get?_withRegistration_of_get?
      (hext.registry ▸ hnew) (hext.registry ▸ hi), hf⟩

end Register

-- ============================================================ outcomes

/-- The constraint was registered with the footprint. -/
structure Registered (s : Solver Rat) (c : Constraint Rat) (f : Footprint)
    (s' : Solver Rat) (goal : Nat → Rat) : Prop where
  new : s.registry.get? c.id = none
  made : ∀ {x}, f.Mentions x → s.nextId ≤ x.id
  registry : s'.registry = s.registry.insert c.id ⟨c, f⟩
  edits : s'.edits = s.edits
  consistent : s'.Consistent (update goal c.id 0)
  settled : s.Settled → s'.Settled

/-- The constraint was refused: the solver says what it said before, and
no proper valuation would balance the constraint too. -/
structure Refused (s : Solver Rat) (c : Constraint Rat) (s' : Solver Rat)
    (goal : Nat → Rat) : Prop where
  new : s.registry.get? c.id = none
  required : c.strength.isRequired = true
  extend : s.Extends s'
  consistent : s'.Consistent goal
  settled : s.Settled → s'.Settled
  unbalanced : s.Settled → ∃ f, (s'.withRegistration c f).Orderly
    ∧ ∀ v, Tableau.Proper v →
        ¬ (s'.withRegistration c f).Balances (update goal c.id 0) v

section Outcomes

variable {c : Constraint Rat} {r : Row Rat} {f : Footprint}
  {s₁ s₂ : Solver Rat}

/-- Registration, step by step. -/
theorem register_eq (hc : s.contains c = false)
    (hq : s.equation c = (r, f, s₁)) (budget : Nat) :
    s.register budget c
      = (s₁.enter budget c r f).andThen fun s₂ _ =>
          ((s₂.withRegistration c f).settle budget).andThen fun s₃ _ =>
            .ok s₃ f := by
  unfold register
  rw [hc, if_neg Bool.false_ne_true, hq]
  rfl

/-- Once the row has entered, the constraint is registered and the
objective lowered. -/
private theorem registered_cases (h : s.Consistent goal)
    (hp : s.Poses c r f s₁) (hweight : 0 ≤ c.strength.value)
    (hnew : s.registry.get? c.id = none) (hent : s₁.Enters r s₂)
    {o : Outcome (Solver Rat) (Error Rat) Footprint}
    (ho : ((s₂.withRegistration c f).settle budget).andThen
      (fun s₃ _ => .ok s₃ f) = o) :
    (o.result = .ok f ∧ s.Registered c f o.state goal)
      ∨ ∃ e, o.result = .error e ∧ e.isFatal = true := by
  subst ho
  have hcons := h.register hp hweight hnew hent
  cases hset : ((s₂.withRegistration c f).settle budget).result with
  | error e =>
      refine Or.inr ⟨e, ?_, hcons.error_of_settle hset⟩
      unfold Outcome.andThen
      rw [hset]
  | ok u =>
      refine Or.inl ?_
      rw [Outcome.andThen_of_ok hset]
      refine ⟨rfl, hnew, fun hx => (hp.made hx).1, ?_, ?_,
        hcons.settle budget, fun hs => ?_⟩
      · show s₂.registry.insert _ _ = _
        rw [hent.extend.registry, hp.extend.registry]
      · show s₂.edits = _
        rw [hent.extend.edits, hp.extend.edits]
      · refine hcons.settled_of_settle (hent.feasible ?_)
          (hent.dummiesIdle ?_) hset
        · rw [hp.tableau]
          exact hs.feasible
        · rw [hp.tableau]
          exact hs.dummiesIdle

/-- A refusal keeps the rows, and an objective that is worth the same,
since a required constraint has no errors. -/
theorem Poses.objective_of_refuses (hp : s.Poses c r f s₁)
    (href : s₁.Refuses c r s₂) :
    s₂.tableau = s.tableau.withObjective s₂.tableau.objective
      ∧ ∀ v, s₂.tableau.objective.value v
        = s.tableau.objective.value v := by
  rw [href.tableau]
  refine ⟨hp.tableau, fun v => ?_⟩
  rw [hp.objective, hp.fits.errors_eq_zero href.required, mul_zero,
    add_zero]

/-- A refusal leaves symbols behind that mean nothing yet. -/
private theorem refused_of_refuses (h : s.Consistent goal)
    (hp : s.Poses c r f s₁) (hweight : 0 ≤ c.strength.value)
    (hnew : s.registry.get? c.id = none) (href : s₁.Refuses c r s₂) :
    s.Refused c s₂ goal := by
  have hext := hp.extend.trans href.extend
  obtain ⟨ht, ho⟩ := hp.objective_of_refuses href
  have hord := h.toOrderly.register hp hweight href.extend href.symbol?
  have hw : s₂.WellBound := ⟨hord.wellBound.external,
    hord.wellBound.below, hord.wellBound.injective⟩
  have hsep : s₂.tableau.Separated := by
    rw [href.tableau]
    exact hp.separated h.separated
  refine ⟨hnew, href.required, hext,
    h.extend hext (hp.grounded.extend href.extend href.tableau hw) hsep ht ho,
    fun hs => hs.extend ht ho, fun hs => ⟨f, hord, fun v hv hb => ?_⟩⟩
  have hread : s₂.read v = s₁.read v := by
    funext x
    unfold read
    rw [href.symbol?]
  obtain ⟨hold, hc⟩ := (balances_withRegistration hp hnew href.extend
    h.toOrderly goal v).1 hb
  have hsolves := (h.solves v).2 hold
  rw [hread] at hc
  refine href.value_ne ?_ ?_ v ?_ hv ((hp.value_eq_zero_iff hsolves).2 hc)
  · rw [hp.tableau]
    exact hs.feasible
  · rw [hp.tableau]
    exact hs.dummiesIdle
  · rw [hp.tableau]
    exact hsolves

/-- The outcomes of registering a constraint. -/
theorem register_cases (h : s.Consistent goal)
    (hweight : 0 ≤ c.strength.value) (budget : Nat) :
    (s.contains c = true
        ∧ s.register budget c = .error s (.duplicateConstraint c))
      ∨ ((s.register budget c).result
            = .error (.unsatisfiable c s.constraints)
        ∧ s.Refused c (s.register budget c).state goal)
      ∨ (∃ f, (s.register budget c).result = .ok f
        ∧ s.Registered c f (s.register budget c).state goal)
      ∨ ∃ e, (s.register budget c).result = .error e
        ∧ e.isFatal = true := by
  cases hc : s.contains c with
  | true =>
      refine Or.inl ⟨rfl, ?_⟩
      unfold register
      rw [hc, if_pos rfl]
  | false =>
      have hnew := get?_of_not_contains hc
      have hp := poses_equation h.toGrounded c
      generalize hq : s.equation c = q at hp
      obtain ⟨r, f, s₁⟩ := q
      dsimp only at hp
      rw [register_eq hc hq]
      refine Or.inr ?_
      rcases enter_cases hp h.toGrounded h.separated h.auxiliary budget with
        ⟨hres, hent⟩ | ⟨hres, href⟩ | ⟨e, hres, he⟩
      · rw [Outcome.andThen_of_ok hres]
        rcases registered_cases h hp hweight hnew hent rfl with
          hreg | hfatal
        · exact Or.inr (Or.inl ⟨f, hreg⟩)
        · exact Or.inr (Or.inr hfatal)
      · refine Or.inl ?_
        unfold Outcome.andThen
        rw [hres]
        refine ⟨?_, refused_of_refuses h hp hweight hnew href⟩
        unfold unsatisfiable constraints
        rw [hp.extend.registry]
      · refine Or.inr (Or.inr ⟨e, ?_, he⟩)
        unfold Outcome.andThen
        rw [hres]

/-- A constraint for which registration ends well is registered. -/
theorem Consistent.registered_of_ok (h : s.Consistent goal)
    (hweight : 0 ≤ c.strength.value)
    (hok : (s.register budget c).result = .ok f) :
    s.Registered c f (s.register budget c).state goal := by
  rcases register_cases h hweight budget with
    ⟨-, hr⟩ | ⟨hr, -⟩ | ⟨f', hr, hreg⟩ | ⟨e, hr, -⟩
  · rw [hr] at hok
    cases hok
  · rw [hr] at hok
    cases hok
  · obtain rfl := Except.ok.inj (hr.symm.trans hok)
    exact hreg
  · rw [hr] at hok
    cases hok

end Outcomes

end LinearConstraints.Solver
