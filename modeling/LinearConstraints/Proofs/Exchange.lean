/-
Exchanges: one symbol leaves the basis and another enters.

The row of the leaving symbol is solved for the entering one and put into
all other forms. No solution is gained or lost by it, and the objectives
keep their value at every solution: the tableau that results restates the
one before (`Restates`). Loops of exchanges restate as well, so that all
a loop has to be asked is where it stops.

Main statements: `Pivot.restates`, the constants after an exchange
(`Pivot.constant`, `Pivot.get?_rows`), and `Pivot.feasible`: what has to
be checked for an exchange to leave no restricted symbol negative.
-/
import LinearConstraints.Outcome
import LinearConstraints.Proofs.Canonical

namespace LinearConstraints

namespace Tableau

variable {t : Tableau Rat}

-- ==================================================== without one row

theorem Form.of_without {b : Symbol} {r : Row Rat}
    (h : (t.without b).Form r) : t.Form r := by
  cases h with
  | row h => exact .row (get?_of_without h).2
  | objective => exact .objective
  | auxiliary h => exact .auxiliary h

theorem isBasic_without {b x : Symbol} :
    (t.without b).IsBasic x ↔ b ≠ x ∧ t.IsBasic x := by
  constructor
  · intro hbasic
    obtain ⟨r, hr⟩ := hbasic
    exact ⟨(get?_of_without hr).1, r, (get?_of_without hr).2⟩
  · intro hboth
    obtain ⟨hbx, r, hr⟩ := hboth
    exact ⟨r, by rw [get?_rows_without, if_neg hbx, hr]⟩

/-- What a tableau says is what it says without a row, and that row. -/
theorem solves_without {b : Symbol} {r : Row Rat}
    (hr : t.rows.get? b = some r) {v : Symbol → Rat} :
    t.Solves v ↔ (t.without b).Solves v ∧ v b = r.value v := by
  constructor
  · intro hv
    exact ⟨fun x d hd => hv x d (get?_of_without hd).2, hv b r hr⟩
  · intro hboth x d hd
    obtain ⟨hv, hb⟩ := hboth
    by_cases hbx : b = x
    · subst hbx
      rw [hr] at hd
      injection hd with hd
      rw [← hd, hb]
    · exact hv x d (by rw [get?_rows_without, if_neg hbx, hd])

theorem Canonical.without (hc : t.Canonical) (b : Symbol) :
    (t.without b).Canonical where
  reduced := fun hr => hc.reduced hr.of_without
  nonbasic := fun hr _ hx =>
    hc.nonbasic hr.of_without (isBasic_without.1 hx).2

theorem Separated.without (hs : t.Separated) (b : Symbol) :
    (t.without b).Separated where
  rows := fun hr hb => hs.rows (get?_of_without hr).2 hb
  objective := hs.objective
  auxiliary := fun ha => hs.auxiliary ha
  stack := fun hx => hs.stack hx

theorem Unused.without {x : Symbol} (hx : t.Unused x) (b : Symbol) :
    (t.without b).Unused x where
  not_basic := fun h => hx.not_basic (isBasic_without.1 h).2
  coefficient := fun hr => hx.coefficient hr.of_without

-- ========================================================= restatement

/-- The second tableau says the same as the first: it has the same
solutions, its objectives have the same values at them, and it mentions
nothing that the first did not. -/
structure Equivalent (t t' : Tableau Rat) : Prop where
  canonical : t'.Canonical
  unused : ∀ {x}, t.Unused x → t'.Unused x
  solves : ∀ v, t'.Solves v ↔ t.Solves v
  objective : ∀ v, t.Solves v →
    t'.objective.value v = t.objective.value v
  auxiliary : ∀ v, t.Solves v →
    t'.auxiliary.map (Row.value v) = t.auxiliary.map (Row.value v)

/-- The second tableau says the same as the first and keeps external
symbols apart where the first does. -/
structure Restates (t t' : Tableau Rat) : Prop extends t.Equivalent t' where
  separated : t.Separated → t'.Separated

theorem Restates.refl (hc : t.Canonical) : t.Restates t where
  canonical := hc
  separated := id
  unused := id
  solves := fun _ => Iff.rfl
  objective := fun _ _ => rfl
  auxiliary := fun _ _ => rfl

theorem Restates.trans {t' t'' : Tableau Rat} (h : t.Restates t')
    (h' : t'.Restates t'') : t.Restates t'' where
  canonical := h'.canonical
  separated := fun hs => h'.separated (h.separated hs)
  unused := fun hx => h'.unused (h.unused hx)
  solves := fun v => (h'.solves v).trans (h.solves v)
  objective := fun v hv =>
    (h'.objective v ((h.solves v).2 hv)).trans (h.objective v hv)
  auxiliary := fun v hv =>
    (h'.auxiliary v ((h.solves v).2 hv)).trans (h.auxiliary v hv)

-- ============================================================== pivots

/-- The row of a basic symbol, and what it becomes when it is solved for a
symbol that it mentions. -/
structure Pivot (t : Tableau Rat) (leaving entering : Symbol)
    (r d : Row Rat) : Prop where
  row : t.rows.get? leaving = some r
  coefficient_ne : r.coefficient entering ≠ 0
  definition : r.resolve? leaving entering = some d

namespace Pivot

variable {leaving entering : Symbol} {r d : Row Rat}

theorem not_basic (p : t.Pivot leaving entering r d)
    (hc : t.Canonical) : ¬ t.IsBasic entering :=
  fun hb => p.coefficient_ne (hc.nonbasic (.row p.row) hb)

-- The symbol that enters was not basic: this is all that the arithmetic
-- of an exchange asks of the tableau.

section Entering

variable (hs : ¬ t.IsBasic entering)

include hs

theorem ne (p : t.Pivot leaving entering r d) : leaving ≠ entering :=
  ne_of_not_basic p.row hs

theorem constant (p : t.Pivot leaving entering r d) :
    d.constant = -r.constant / r.coefficient entering :=
  Row.constant_of_resolve? (p.ne hs) p.coefficient_ne p.definition

theorem coefficient (p : t.Pivot leaving entering r d) (x : Symbol) :
    d.coefficient x = if entering = x then 0
      else (Row.unit x leaving - r.coefficient x)
        / r.coefficient entering :=
  Row.coefficient_of_resolve? (p.ne hs) p.coefficient_ne p.definition x

theorem coefficient_self (p : t.Pivot leaving entering r d) :
    d.coefficient entering = 0 := by
  rw [p.coefficient hs, if_pos rfl]

/-- A symbol other than the two has a coefficient in the new definition
only if it has one in the old. -/
theorem coefficient_eq_zero (p : t.Pivot leaving entering r d)
    {x : Symbol} (hx : x ≠ leaving) (h : r.coefficient x = 0) :
    d.coefficient x = 0 := by
  rw [p.coefficient hs, h, Row.unit_of_ne (Ne.symm hx)]
  split
  · rfl
  · rw [sub_zero, zero_div]

/-- The old definition and the new one say the same. -/
theorem value_iff (p : t.Pivot leaving entering r d)
    (v : Symbol → Rat) :
    v leaving = r.value v ↔ v entering = d.value v := by
  rw [Row.value_of_resolve? (p.ne hs) p.coefficient_ne p.definition v]
  have ha := p.coefficient_ne
  constructor
  · intro h
    rw [h]
    simp
  · intro h
    have h₀ : (r.value v - v leaving) / r.coefficient entering = 0 := by
      linarith
    rcases div_eq_zero_iff.1 h₀ with h₀ | h₀
    · linarith
    · exact absurd h₀ ha

/-- An exchange gains and loses no solution. -/
theorem solves (p : t.Pivot leaving entering r d) (v : Symbol → Rat) :
    ((t.without leaving).install entering d).Solves v ↔ t.Solves v := by
  rw [solves_install fun hb => hs (isBasic_without.1 hb).2,
    solves_without p.row, p.value_iff hs]

/-- At a solution every form keeps its value. -/
theorem value_substitute (p : t.Pivot leaving entering r d)
    {v : Symbol → Rat} (hv : t.Solves v) (o : Row Rat) :
    (o.substitute entering d).value v = o.value v :=
  Row.value_substitute_of_eq o ((p.value_iff hs v).1 (hv leaving r p.row))

end Entering

/-- The new definition mentions no symbol that is still basic. -/
theorem coefficient_basic (p : t.Pivot leaving entering r d)
    (hc : t.Canonical) {x : Symbol} (hx : (t.without leaving).IsBasic x) :
    d.coefficient x = 0 := by
  obtain ⟨hne, hb⟩ := isBasic_without.1 hx
  exact p.coefficient_eq_zero (p.not_basic hc) (Ne.symm hne)
    (hc.nonbasic (.row p.row) hb)

theorem internal (p : t.Pivot leaving entering r d) (hc : t.Canonical)
    (hsep : t.Separated) (hl : leaving.isExternal = false) :
    d.Internal := by
  intro x hx
  exact p.coefficient_eq_zero (p.not_basic hc) (Symbol.ne_of_test hx hl)
    (hsep.rows p.row hl x hx)

/-- The rows after an exchange. -/
theorem get?_rows (t : Tableau Rat) (leaving entering : Symbol)
    (d : Row Rat) (b : Symbol) :
    ((t.without leaving).install entering d).rows.get? b
      = if entering = b then some d
        else if leaving = b then none
        else (t.rows.get? b).map fun r => r.substitute entering d := by
  rw [get?_rows_install, get?_rows_without]
  split
  · rfl
  · split <;> rfl

/-- An exchange says the same in other terms. -/
theorem equivalent (p : t.Pivot leaving entering r d)
    (hc : t.Canonical) :
    t.Equivalent ((t.without leaving).install entering d) where
  canonical := (hc.without leaving).install
    (((hc.reduced (.row p.row)).resolve? p.definition))
    (p.coefficient_self (p.not_basic hc))
    fun _ hx => p.coefficient_basic hc hx
  unused := by
    intro x hx
    refine (hx.without leaving).install ?_ ?_
    · intro heq
      subst heq
      exact p.coefficient_ne (hx.coefficient (.row p.row))
    · refine p.coefficient_eq_zero (p.not_basic hc) ?_
        (hx.coefficient (.row p.row))
      intro heq
      subst heq
      exact hx.not_basic ⟨r, p.row⟩
  solves := p.solves (p.not_basic hc)
  objective := fun _ hv => p.value_substitute (p.not_basic hc) hv _
  auxiliary := by
    intro v hv
    show (t.auxiliary.map fun a => a.substitute entering d).map _ = _
    rw [Option.map_map]
    congr 1
    funext a
    exact p.value_substitute (p.not_basic hc) hv a

/-- Where the leaving symbol is restricted, an exchange restates the
tableau. -/
theorem restates (p : t.Pivot leaving entering r d) (hc : t.Canonical)
    (hl : leaving.isExternal = false) :
    t.Restates ((t.without leaving).install entering d) where
  toEquivalent := p.equivalent hc
  separated := fun hsep =>
    (hsep.without leaving).install (Or.inl (p.internal hc hsep hl))

end Pivot

/-- An exchange on a coefficient that is not zero is a pivot. -/
theorem pivot_of_exchange? {leaving entering : Symbol}
    {t' : Tableau Rat} {r : Row Rat}
    (h : t.exchange? leaving entering = some t')
    (hr : t.rows.get? leaving = some r)
    (ha : r.coefficient entering ≠ 0) :
    ∃ d, t.Pivot leaving entering r d
      ∧ t' = (t.without leaving).install entering d := by
  obtain ⟨r', d, hr', hd, rfl⟩ := exchange?_eq_some_iff.1 h
  rw [hr] at hr'
  injection hr' with hr'
  exact ⟨d, ⟨hr, ha, hr' ▸ hd⟩, rfl⟩

-- ========================================================= feasibility

/-- In the solution of the tableau no symbol but external ones is
negative. -/
def Feasible (t : Tableau Rat) : Prop :=
  ∀ b r, t.rows.get? b = some r → b.isExternal = false →
    0 ≤ r.constant

/-- Basic dummies are zero and stay so: their rows mention dummies
only. -/
def DummiesIdle (t : Tableau Rat) : Prop :=
  ∀ b r, t.rows.get? b = some r → b.isDummy = true →
    r.constant = 0 ∧ ∀ x, x.isDummy = false → r.coefficient x = 0

theorem not_external_of_dummy {b : Symbol} (h : b.isDummy = true) :
    b.isExternal = false := by
  unfold Symbol.isDummy at h
  unfold Symbol.isExternal
  rw [beq_iff_eq.1 h]
  rfl

/-- In a feasible tableau the solution is not negative at symbols that are
not external. -/
theorem Feasible.solution_nonneg (hf : t.Feasible) {x : Symbol}
    (hx : x.isExternal = false) : 0 ≤ t.solution x := by
  by_cases hb : t.IsBasic x
  · obtain ⟨r, hr⟩ := hb
    rw [solution_of_row hr]
    exact hf x r hr hx
  · rw [solution_of_not_basic hb]

/-- Where basic dummies are idle the solution is zero at all dummies. -/
theorem DummiesIdle.solution_eq_zero (hd : t.DummiesIdle) {x : Symbol}
    (hx : x.isDummy = true) : t.solution x = 0 := by
  by_cases hb : t.IsBasic x
  · obtain ⟨r, hr⟩ := hb
    rw [solution_of_row hr]
    exact (hd x r hr hx).1
  · exact solution_of_not_basic hb

/-- The valuation respects the kinds of the symbols: none but external
ones are negative, and dummies are zero. -/
structure Proper (v : Symbol → Rat) : Prop where
  nonneg : ∀ {x : Symbol}, x.isExternal = false → 0 ≤ v x
  dummy : ∀ {x : Symbol}, x.isDummy = true → v x = 0

theorem proper_solution (hf : t.Feasible) (hd : t.DummiesIdle) :
    Proper t.solution where
  nonneg := hf.solution_nonneg
  dummy := hd.solution_eq_zero

/-- A new definition may be installed in a feasible tableau if neither its
own constant nor those of the restricted rows turn negative. -/
theorem feasible_install {s : Symbol} {d : Row Rat}
    (hs : s.isExternal = false → 0 ≤ d.constant)
    (hrows : ∀ b r, t.rows.get? b = some r → b.isExternal = false →
      0 ≤ r.constant + r.coefficient s * d.constant) :
    (t.install s d).Feasible := by
  intro b r hr hb
  rcases row_of_install hr with ⟨rfl, rfl⟩ | ⟨r₀, hr₀, rfl⟩
  · exact hs hb
  · rw [Row.constant_substitute]
    exact hrows b r₀ hr₀ hb

/-- Installing the definition of a symbol that no dummy's row mentions
leaves basic dummies idle. -/
theorem dummiesIdle_install {s : Symbol} {d : Row Rat}
    (hidle : t.DummiesIdle)
    (hs : ∀ b r, t.rows.get? b = some r → b.isDummy = true →
      r.coefficient s = 0)
    (hd : s.isDummy = true →
      d.constant = 0 ∧ ∀ x, x.isDummy = false → d.coefficient x = 0) :
    (t.install s d).DummiesIdle := by
  intro b r hr hb
  rcases row_of_install hr with ⟨rfl, rfl⟩ | ⟨r₀, hr₀, rfl⟩
  · exact hd hb
  · obtain ⟨hconst, hcells⟩ := hidle b r₀ hr₀ hb
    rw [Row.constant_substitute, hs b r₀ hr₀ hb, hconst]
    refine ⟨by ring, fun x hx => ?_⟩
    rw [Row.coefficient_substitute, hs b r₀ hr₀ hb, hcells x hx]
    ring

theorem Feasible.without (hf : t.Feasible) (b : Symbol) :
    (t.without b).Feasible :=
  fun x r hr hx => hf x r (get?_of_without hr).2 hx

theorem DummiesIdle.without (hd : t.DummiesIdle) (b : Symbol) :
    (t.without b).DummiesIdle :=
  fun x r hr hx => hd x r (get?_of_without hr).2 hx

end Tableau

end LinearConstraints
