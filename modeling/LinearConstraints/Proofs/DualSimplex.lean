/-
The dual simplex search: it repairs what has turned negative and keeps the
objective lowest.

Between two steps every restricted row that is negative waits on the stack
(`Pending`), so that an empty stack is a feasible tableau. The ratio test
takes the symbol whose growth costs the objective least, and this is why
no coefficient of the objective turns negative.

# Why an entering symbol is found

A negative row in which no symbol but dummies counts positively says that
its own symbol is negative wherever the others are not: then no proper
valuation solves the tableau. So the search only gives up where there is
nothing to be found.

Main statements: `restore_restates`, `restore_lowest`,
`restore_dummiesIdle`, `feasible_of_restore` and `restore_ne_noDual`.
-/
import LinearConstraints.Proofs.PrimalSimplex
import LinearConstraints.Tableau.Dual

namespace LinearConstraints.Tableau

variable {t t' : Tableau Rat}

/-- Every restricted row that is negative waits to be repaired. -/
def Pending (t : Tableau Rat) : Prop :=
  ∀ b r, t.rows.get? b = some r → b.isExternal = false →
    r.constant < 0 → b ∈ t.infeasible

/-- The tableau with the top of its stack taken off. -/
def popped (t : Tableau Rat) (rest : List Symbol) : Tableau Rat :=
  { t with infeasible := rest }

section Popped

variable {b : Symbol} {rest : List Symbol}

/-- The stack has no part in what a tableau says. -/
private theorem form_popped {r : Row Rat} (h : (t.popped rest).Form r) :
    t.Form r := by
  cases h with
  | row h => exact .row h
  | objective => exact .objective
  | auxiliary h => exact .auxiliary h

theorem restates_popped (hc : t.Canonical)
    (hs : t.infeasible = b :: rest) : t.Restates (t.popped rest) where
  canonical := ⟨fun hr => hc.reduced (form_popped hr),
    fun hr _ hx => hc.nonbasic (form_popped hr) hx⟩
  unused := fun hx => ⟨hx.not_basic, fun hr => hx.coefficient (form_popped hr)⟩
  solves := fun _ => Iff.rfl
  objective := fun _ _ => rfl
  auxiliary := fun _ _ => rfl
  separated := fun h => ⟨h.rows, h.objective, h.auxiliary,
    fun hx => h.stack (hs ▸ List.mem_cons_of_mem b hx)⟩

end Popped

-- ====================================================== the candidates

theorem mem_costs {r : Row Rat} (x : Symbol) (q : Rat) :
    (x, q) ∈ t.costs r ↔ ∃ k, r.cells.get? x = some k
      ∧ x.isDummy = false ∧ 0 < k
      ∧ q = t.objective.coefficient x / k := by
  have h := Table.mem_filterMap_iff (t := r.cells) (k := x) (c := q)
    (p := fun x k => !x.isDummy && decide (0 < k))
    (f := fun x k => t.objective.coefficient x / k)
  refine Iff.trans h (exists_congr fun k => and_congr_right fun _ => ?_)
  rw [Bool.and_eq_true, Bool.not_eq_true', decide_eq_true_eq, and_assoc]

/-- The entering symbol raises the row, and none does so at less cost. -/
theorem dualEntering?_spec {r : Row Rat} {s : Symbol}
    (h : t.dualEntering? r = some s) :
    s.isDummy = false ∧ 0 < r.coefficient s
      ∧ ∀ x, x.isDummy = false → 0 < r.coefficient x →
          t.objective.coefficient s / r.coefficient s
            ≤ t.objective.coefficient x / r.coefficient x := by
  obtain ⟨q, hmem, hmin⟩ := Scalar.leastRatio_spec h
  obtain ⟨k, hk, hs, hpos, rfl⟩ := (mem_costs s q).1 hmem
  rw [Row.coefficient_of_get? hk]
  refine ⟨hs, hpos, fun x hx hxpos => ?_⟩
  have hget := Row.get?_of_coefficient_ne (ne_of_gt hxpos)
  exact hmin _ ((mem_costs x _).2 ⟨_, hget, hx, hxpos, rfl⟩)

/-- Where no symbol enters, none but dummies raises the row. -/
theorem coefficient_nonpos_of_dualEntering? {r : Row Rat}
    (h : t.dualEntering? r = none) {x : Symbol}
    (hx : x.isDummy = false) : r.coefficient x ≤ 0 := by
  by_contra hpos
  have hpos := not_le.1 hpos
  have hget := Row.get?_of_coefficient_ne (ne_of_gt hpos)
  have hmem := (mem_costs (t := t) x _).2 ⟨_, hget, hx, hpos, rfl⟩
  rw [Scalar.leastRatio_eq_none h] at hmem
  cases hmem

-- ============================================================ one step

/-- What a step of the search does when it goes on: it passes over a row,
or exchanges its symbol for the one that raises it at the least cost. -/
theorem dualStep_eq_next (h : dualStep t = .next t') :
    ∃ b rest, t.infeasible = b :: rest ∧
      ((t' = t.popped rest
          ∧ ∀ r, t.rows.get? b = some r → 0 ≤ r.constant)
        ∨ ∃ s r d, r.constant < 0 ∧ t.dualEntering? r = some s
            ∧ (t.popped rest).Pivot b s r d
            ∧ t' = ((t.popped rest).without b).install s d) := by
  cases dualStep_eq_iff.1 h with
  | @pass b rest stack sound =>
      exact ⟨b, rest, stack, Or.inl
        ⟨rfl, fun r hr => not_lt.1 (sound r hr)⟩⟩
  | @pivot b s rest r _ stack row negative enters exchange =>
      obtain ⟨-, hpos, -⟩ := dualEntering?_spec enters
      obtain ⟨d, hp, rfl⟩ := pivot_of_exchange? exchange row (ne_of_gt hpos)
      exact ⟨b, rest, stack, Or.inr ⟨s, r, d, negative, enters, hp, rfl⟩⟩

/-- Where a step of the search stops, and why. -/
theorem dualStep_eq_stop {res : Except Failure Unit}
    (h : dualStep t = .stop t' res) :
    (res = .ok () → t' = t ∧ t.infeasible = [])
      ∧ (∀ e, res = .error e →
          ∃ b rest r, t.infeasible = b :: rest ∧ t' = t.popped rest
            ∧ t.rows.get? b = some r ∧ r.constant < 0
            ∧ (e = .noDualEnteringSymbol ∧ t.dualEntering? r = none
              ∨ e = .absentSymbol)) := by
  cases dualStep_eq_iff.1 h with
  | done stack => exact ⟨fun _ => ⟨rfl, stack⟩, fun e he => by cases he⟩
  | stuck stack row negative enters =>
      refine ⟨fun he => (by cases he), fun e he => ?_⟩
      obtain rfl := Except.error.inj he
      exact ⟨_, _, _, stack, rfl, row, negative, Or.inl ⟨rfl, enters⟩⟩
  | absent stack row negative =>
      refine ⟨fun he => (by cases he), fun e he => ?_⟩
      obtain rfl := Except.error.inj he
      exact ⟨_, _, _, stack, rfl, row, negative, Or.inr rfl⟩

theorem dualStep_restates (hc : t.Canonical) (hsep : t.Separated)
    (h : dualStep t = .next t') : t.Restates t' := by
  obtain ⟨b, rest, hs, ⟨rfl, -⟩ | ⟨s, r, d, -, -, hp, rfl⟩⟩ :=
    dualStep_eq_next h
  · exact restates_popped hc hs
  · have hre := restates_popped hc hs
    have hb := hsep.stack (hs ▸ List.mem_cons_self ..)
    exact hre.trans (hp.restates hre.canonical hb)

section Due

variable {b s : Symbol} {r d : Row Rat} (hs : ¬ t.IsBasic s)

include hs

/-- A symbol that raises a negative row enters at a value that is not
negative. -/
theorem Pivot.constant_nonneg_of_due (hp : t.Pivot b s r d)
    (hneg : r.constant < 0) (hpos : 0 < r.coefficient s) :
    0 ≤ d.constant := by
  rw [hp.constant hs]
  exact div_nonneg (neg_nonneg.2 (le_of_lt hneg)) (le_of_lt hpos)

/-- The symbol that costs least enters, so no coefficient of the objective
turns negative. Neither the objective nor the row mentions the symbol that
leaves. -/
theorem Pivot.lowest (hp : t.Pivot b s r d)
    (hob : t.objective.coefficient b = 0) (hrb : r.coefficient b = 0)
    (hent : t.dualEntering? r = some s) (hlow : t.objective.Lowest) :
    ((t.without b).install s d).objective.Lowest := by
  obtain ⟨hsd, hpos, hmin⟩ := dualEntering?_spec hent
  intro x hx
  show 0 ≤ (t.objective.substitute s d).coefficient x
  rw [Row.coefficient_substitute]
  by_cases hxs : s = x
  · subst hxs
    rw [hp.coefficient_self hs, Row.unit_self]
    linarith
  · rw [hp.coefficient hs, if_neg hxs, Row.unit_of_ne hxs, sub_zero]
    have hos := hlow s hsd
    by_cases hxb : x = b
    · subst hxb
      rw [hob, hrb, Row.unit_self, sub_zero, zero_add]
      exact mul_nonneg hos (div_nonneg zero_le_one (le_of_lt hpos))
    · rw [Row.unit_of_ne (Ne.symm hxb), zero_sub, neg_div, mul_neg,
        ← sub_eq_add_neg, sub_nonneg]
      have hox := hlow x hx
      have hswap : t.objective.coefficient s
            * (r.coefficient x / r.coefficient s)
          = t.objective.coefficient s / r.coefficient s
            * r.coefficient x := by ring
      rw [hswap]
      rcases le_or_gt (r.coefficient x) 0 with hrx | hrx
      · exact le_trans (mul_nonpos_of_nonneg_of_nonpos
          (div_nonneg hos (le_of_lt hpos)) hrx) hox
      · have hq := hmin x hx hrx
        rwa [le_div_iff₀ hrx] at hq

/-- The exchange puts every restricted row that is negative after it on
the stack, whatever has been there before. -/
theorem Pivot.pending (hp : t.Pivot b s r d) (hneg : r.constant < 0)
    (hpos : 0 < r.coefficient s) :
    ((t.without b).install s d).Pending := by
  intro x r' hr' hx hneg'
  have hxs : s ≠ x := by
    intro heq
    subst heq
    rw [Pivot.get?_rows, if_pos rfl] at hr'
    obtain rfl := Option.some.inj hr'
    have hd := hp.constant_nonneg_of_due hs hneg hpos
    exact absurd hneg' (not_lt.2 hd)
  refine mem_infeasible_substitute.2 (Or.inl ⟨r', ?_, ?_⟩)
  · rw [get?_rows_install, if_neg hxs] at hr'
    rw [get?_rows_substitute, hr']
  · exact isNegative_iff.2 ⟨hx, hneg'⟩

end Due

/-- What waits still waits when a row that is not negative is passed
over. -/
theorem Pending.popped {b : Symbol} {rest : List Symbol}
    (hpend : t.Pending) (hs : t.infeasible = b :: rest)
    (hb : ∀ r, t.rows.get? b = some r → 0 ≤ r.constant) :
    (t.popped rest).Pending := by
  intro x r hr hx hneg
  have hmem := hpend x r hr hx hneg
  rw [hs] at hmem
  rcases List.mem_cons.1 hmem with rfl | hmem
  · exact absurd hneg (not_lt.2 (hb r hr))
  · exact hmem

theorem dualStep_lowest (hc : t.Canonical) (hlow : t.objective.Lowest)
    (h : dualStep t = .next t') : t'.objective.Lowest := by
  obtain ⟨b, rest, hs, ⟨rfl, -⟩ | ⟨s, r, d, -, hent, hp, rfl⟩⟩ :=
    dualStep_eq_next h
  · exact hlow
  · have hc' := (restates_popped hc hs).canonical
    have hb : (t.popped rest).IsBasic b := ⟨r, hp.row⟩
    exact Pivot.lowest (hp.not_basic hc') hp (hc'.nonbasic .objective hb)
      (hc'.nonbasic (.row hp.row) hb) hent hlow

/-- Whatever a step turns negative is put on the stack. -/
theorem dualStep_pending (hc : t.Canonical) (hpend : t.Pending)
    (h : dualStep t = .next t') : t'.Pending := by
  obtain ⟨b, rest, hs, ⟨rfl, hpos⟩ | ⟨s, r, d, hneg, hent, hp, rfl⟩⟩ :=
    dualStep_eq_next h
  · exact hpend.popped hs hpos
  · have hc' := (restates_popped hc hs).canonical
    exact hp.pending (hp.not_basic hc') hneg (dualEntering?_spec hent).2.1

/-- Only symbols that are no dummies enter, so basic dummies stay idle. -/
theorem dualStep_dummiesIdle (hidle : t.DummiesIdle)
    (h : dualStep t = .next t') : t'.DummiesIdle := by
  obtain ⟨b, rest, hs, ⟨rfl, -⟩ | ⟨s, r, d, -, hent, -, rfl⟩⟩ :=
    dualStep_eq_next h
  · exact hidle
  · have hsd := (dualEntering?_spec hent).1
    have hidle' : (t.popped rest).DummiesIdle := hidle
    refine dummiesIdle_install (hidle'.without b)
      (fun b₁ r₁ hr₁ hb₁ => ?_) fun h => by rw [hsd] at h; cases h
    exact (hidle' b₁ r₁ (get?_of_without hr₁).2 hb₁).2 s hsd

-- ========================================================== the search

section Restore

variable (budget : Nat)

/-- What every step keeps, and taking a symbol off the stack, holds where
the search ends. -/
private theorem restore_induction {P : Tableau Rat → Prop}
    (hnext : ∀ s s', P s → dualStep s = .next s' → P s')
    (hpop : ∀ s b rest, s.infeasible = b :: rest → P s → P (s.popped rest))
    (h : P t) : P (t.restore budget).state := by
  rcases iterate_induction hnext budget t h with ⟨-, hP⟩ | ⟨s, hP, hs⟩
  · exact hP
  · obtain ⟨hok, herr⟩ := dualStep_eq_stop hs
    cases hres : (t.restore budget).result with
    | ok u =>
        have hst := (hok hres).1
        exact hst ▸ hP
    | error e =>
        obtain ⟨b, rest, r, hstack, hst, -⟩ := herr e hres
        have := hpop s b rest hstack hP
        exact hst ▸ this

theorem restore_restates (hc : t.Canonical) (hsep : t.Separated) :
    t.Restates (t.restore budget).state := by
  have key : (t.restore budget).state.Separated
      ∧ t.Restates (t.restore budget).state := by
    refine restore_induction budget
      (P := fun s => s.Separated ∧ t.Restates s) (fun s s' h hs => ?_)
      (fun s b rest hstack h => ?_) ⟨hsep, .refl hc⟩
    · have hre := dualStep_restates h.2.canonical h.1 hs
      exact ⟨hre.separated h.1, h.2.trans hre⟩
    · have hre := restates_popped h.2.canonical hstack
      exact ⟨hre.separated h.1, h.2.trans hre⟩
  exact key.2

theorem restore_dummiesIdle (hidle : t.DummiesIdle) :
    (t.restore budget).state.DummiesIdle :=
  restore_induction budget (P := fun s => s.DummiesIdle)
    (fun _ _ h hs => dualStep_dummiesIdle h hs) (fun _ _ _ _ h => h) hidle

theorem restore_lowest (hc : t.Canonical) (hsep : t.Separated)
    (hlow : t.objective.Lowest) :
    (t.restore budget).state.objective.Lowest := by
  have key : (t.restore budget).state.Canonical
      ∧ (t.restore budget).state.Separated
      ∧ (t.restore budget).state.objective.Lowest := by
    refine restore_induction budget
      (P := fun s => s.Canonical ∧ s.Separated ∧ s.objective.Lowest)
      (fun s s' h hs => ?_) (fun s b rest hstack h => ?_) ⟨hc, hsep, hlow⟩
    · have hre := dualStep_restates h.1 h.2.1 hs
      exact ⟨hre.canonical, hre.separated h.2.1,
        dualStep_lowest h.1 h.2.2 hs⟩
    · have hre := restates_popped h.1 hstack
      exact ⟨hre.canonical, hre.separated h.2.1, h.2.2⟩
  exact key.2.2

variable {budget}

/-- A search that ends well has emptied the stack. -/
theorem feasible_of_restore (hc : t.Canonical) (hsep : t.Separated)
    (hpend : t.Pending) (hok : (t.restore budget).result = .ok ()) :
    (t.restore budget).state.Feasible := by
  have hnext : ∀ s s' : Tableau Rat,
      s.Canonical ∧ s.Separated ∧ s.Pending → dualStep s = .next s' →
        s'.Canonical ∧ s'.Separated ∧ s'.Pending := by
    intro s s' h hs
    have hre := dualStep_restates h.1 h.2.1 hs
    exact ⟨hre.canonical, hre.separated h.2.1,
      dualStep_pending h.1 h.2.2 hs⟩
  rcases iterate_induction hnext budget t ⟨hc, hsep, hpend⟩ with
    ⟨hspent, -⟩ | ⟨s, ⟨-, -, hP⟩, hs⟩
  · have := hok.symm.trans hspent
    cases this
  · obtain ⟨hst, hempty⟩ := (dualStep_eq_stop hs).1 hok
    have hst : (t.restore budget).state = s := hst
    rw [hst]
    intro b r hr hb
    by_contra hneg
    have hmem := hP b r hr hb (not_le.1 hneg)
    rw [hempty] at hmem
    cases hmem

/-- Where some proper valuation solves the tableau, every negative row can
be raised. -/
theorem restore_ne_noDual (hc : t.Canonical) (hsep : t.Separated)
    {v : Symbol → Rat} (hv : t.Solves v) (hp : Proper v) :
    (t.restore budget).result ≠ .error .noDualEnteringSymbol := by
  intro hno
  have hnext : ∀ s s' : Tableau Rat, s.Separated ∧ t.Restates s →
      dualStep s = .next s' → s'.Separated ∧ t.Restates s' := by
    intro s s' h hs
    have hre := dualStep_restates h.2.canonical h.1 hs
    exact ⟨hre.separated h.1, h.2.trans hre⟩
  rcases iterate_induction hnext budget t ⟨hsep, .refl hc⟩ with
    ⟨hspent, -⟩ | ⟨s, ⟨hseps, hre⟩, hs⟩
  · have := hno.symm.trans hspent
    cases this
  · obtain ⟨b, rest, r, hstack, -, hr, hneg, ⟨-, hent⟩ | hcases⟩ :=
      (dualStep_eq_stop hs).2 _ hno
    swap
    · cases hcases
    have hb := hseps.stack (hstack ▸ List.mem_cons_self ..)
    have hvb := (hre.solves v).2 hv b r hr
    -- nothing in the row makes up for its constant
    have hle : r.negated.constant ≤ r.negated.value v := by
      refine Row.constant_le_value fun x => ?_
      rw [Row.coefficient_negated]
      cases hx : x.isExternal with
      | true => rw [hseps.rows hr hb x hx, neg_zero, zero_mul]
      | false =>
          cases hd : x.isDummy with
          | true => rw [hp.dummy hd, mul_zero]
          | false =>
              have hc := coefficient_nonpos_of_dualEntering? hent hd
              exact mul_nonneg (neg_nonneg.2 hc) (hp.nonneg hx)
    have hconst : r.negated.constant = -r.constant := rfl
    rw [Row.value_negated, hconst] at hle
    have hvb0 := hp.nonneg hb
    linarith

/-- Where a repair fails, a row could not be raised or the search has not
come to an end. -/
theorem error_of_restore {f : Failure}
    (h : (t.restore budget).result = .error f) :
    f = .noDualEnteringSymbol ∨ f = .absentSymbol ∨ f = .budgetSpent := by
  rcases iterate_induction (P := fun _ => True)
      (fun _ _ _ _ => trivial) budget t trivial with
    ⟨hspent, -⟩ | ⟨s, -, hs⟩
  · exact Or.inr (Or.inr (Except.error.inj (h.symm.trans hspent)))
  · obtain ⟨b, rest, r, -, -, -, -, ⟨hf, -⟩ | hf⟩ :=
      (dualStep_eq_stop hs).2 f h
    · exact Or.inl hf
    · exact Or.inr (Or.inl hf)

end Restore

end LinearConstraints.Tableau
