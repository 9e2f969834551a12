/-
Consistent solvers: the tableau says what the registry says.

A solver is consistent with goals for its constraints if the solutions of
its tableau are the valuations that balance every registered constraint at
its goal, and the objective is the weighted sum of their errors. Goals are
zero but for edit constraints, whose goal is the value suggested last.

# Leftovers

Of an equality that is not required only one error is taken out of the
objective when it is removed. The other one stays in the objective, where
it does no harm: it occurs in no constraint any more, so it may as well be
zero. The objective may also differ from the sum by a constant, which
moving a target leaves behind. Both make up the rest in `Consistent`.

Main statements: `Consistent.monotone`, which keeps every search for the
minimum bounded, `Consistent.restate` and `Consistent.extend`: work that
restates the tableau and new symbols keep the solver consistent.
-/
import LinearConstraints.Proofs.Equation
import LinearConstraints.Proofs.PrimalSimplex

namespace LinearConstraints

/-- What the violation of a constraint adds to the objective. -/
def Registration.penalty (g : Registration Rat) (v : Symbol → Rat) : Rat :=
  g.constraint.strength.value * g.footprint.errors v

/-- What is left over once the constraint has been removed: the weight of
the companion, if it is an equality. -/
def Registration.leaves (g : Registration Rat) (rest : Row Rat) : Row Rat :=
  if g.constraint.relation = .equal then
    g.footprint.companion.elim rest fun y =>
      rest.addCell y g.constraint.strength.value
  else rest

namespace Solver

/-- No registered constraint has the symbol. -/
def Free (s : Solver Rat) (x : Symbol) : Prop :=
  ∀ i g, s.registry.get? i = some g → ¬ g.footprint.Mentions x

/-- What the objective should be worth. -/
def penalty (s : Solver Rat) (v : Symbol → Rat) : Rat :=
  s.registry.sum fun _ g => g.penalty v

/-- A constraint is registered under its number, with symbols that fit it;
its strength is not negative, and its variables are bound. -/
structure Registers (s : Solver Rat) (i : Nat) (g : Registration Rat) :
    Prop where
  key : g.constraint.id = i
  weight : 0 ≤ g.constraint.strength.value
  fits : g.constraint.Fits g.footprint
  apart : g.footprint.companion ≠ some g.footprint.marker
  below : ∀ {x}, g.footprint.Mentions x → x.id < s.nextId
  bound : ∀ t ∈ g.constraint.expression.terms, t.coefficient ≠ 0 →
    ∃ y, s.symbol? t.var = some y

/-- An edit has two error symbols, those of a registered constraint or
those of one that has been removed. -/
structure Tracks (s : Solver Rat) (f : Footprint) : Prop where
  marker : f.marker.kind = .error
  companion : ∃ y, f.companion = some y ∧ y.kind = .error
  apart : f.companion ≠ some f.marker
  below : ∀ {x}, f.Mentions x → x.id < s.nextId
  owner : (∃ i g, s.registry.get? i = some g ∧ g.footprint = f)
    ∨ ∀ {x}, f.Mentions x → s.Free x

/-- The row counts positively, and no symbols but errors that belong to no
registered constraint. -/
def Leftover (s : Solver Rat) (rest : Row Rat) : Prop :=
  ∀ x, rest.coefficient x ≠ 0 → 0 ≤ rest.coefficient x
    ∧ x.kind = .error ∧ x.id < s.nextId ∧ s.Free x

/-- On the solutions of the tableau, the objective is worth the penalty and
a rest. -/
def Owes (s : Solver Rat) (rest : Row Rat) : Prop :=
  ∀ v, s.tableau.Solves v →
    s.tableau.objective.value v = s.penalty v + rest.value v

/-- The valuation balances every registered constraint at its goal. -/
def Balances (s : Solver Rat) (goal : Nat → Rat) (v : Symbol → Rat) :
    Prop :=
  ∀ i g, s.registry.get? i = some g → g.Balanced (s.read v) (goal i) v

/-- The registry is in order: each constraint has symbols of its own. -/
structure Orderly (s : Solver Rat) : Prop where
  wellBound : s.WellBound
  registered : ∀ {i g}, s.registry.get? i = some g → s.Registers i g
  disjoint : ∀ {i j g h x}, s.registry.get? i = some g →
    s.registry.get? j = some h → g.footprint.Mentions x →
    h.footprint.Mentions x → i = j

/-- The tableau says what the registry says, with these goals. -/
structure Consistent (s : Solver Rat) (goal : Nat → Rat) : Prop
    extends s.Grounded, s.Orderly where
  separated : s.tableau.Separated
  auxiliary : s.tableau.auxiliary = none
  required : ∀ {i g}, s.registry.get? i = some g →
    g.constraint.strength.isRequired = true → goal i = 0
  solves : ∀ v, s.tableau.Solves v ↔ s.Balances goal v
  objective : ∃ rest, s.Leftover rest ∧ ∀ v, s.tableau.Solves v →
    s.tableau.objective.value v = s.penalty v + rest.value v
  edits : ∀ {x e}, s.edits.get? x = some e → s.Tracks e.footprint

/-- The tableau is at a minimum: feasible, with basic dummies idle and an
objective that nothing lowers. -/
structure Settled (s : Solver Rat) : Prop where
  feasible : s.tableau.Feasible
  dummiesIdle : s.tableau.DummiesIdle
  lowest : s.tableau.objective.Lowest

variable {s s' : Solver Rat} {goal : Nat → Rat}

theorem Registers.mono {i : Nat} {g : Registration Rat}
    (h : s.Registers i g) (hn : s.nextId ≤ s'.nextId)
    (hb : ∀ {x y}, s.symbol? x = some y → s'.symbol? x = some y) :
    s'.Registers i g where
  key := h.key
  weight := h.weight
  fits := h.fits
  apart := h.apart
  below := fun hx => lt_of_lt_of_le (h.below hx) hn
  bound := fun t ht h0 => (h.bound t ht h0).imp fun _ hy => hb hy

theorem Tracks.mono {f : Footprint} (h : s.Tracks f)
    (hn : s.nextId ≤ s'.nextId)
    (howner : (∃ i g, s.registry.get? i = some g ∧ g.footprint = f) →
      (∃ i g, s'.registry.get? i = some g ∧ g.footprint = f)
        ∨ ∀ {x}, f.Mentions x → s'.Free x)
    (hfree : ∀ {x}, f.Mentions x → s.Free x → s'.Free x) :
    s'.Tracks f where
  marker := h.marker
  companion := h.companion
  apart := h.apart
  below := fun hx => lt_of_lt_of_le (h.below hx) hn
  owner := h.owner.elim howner
    fun hall => Or.inr fun hx => hfree hx (hall hx)

theorem Leftover.mono {rest : Row Rat} (h : s.Leftover rest)
    (hn : s.nextId ≤ s'.nextId)
    (hfree : ∀ {x}, x.id < s.nextId → s.Free x → s'.Free x) :
    s'.Leftover rest := by
  intro x h0
  obtain ⟨hpos, hkind, hid, hx⟩ := h x h0
  exact ⟨hpos, hkind, lt_of_lt_of_le hid hn, hfree hid hx⟩

/-- A constant does not count. -/
theorem Leftover.shift {rest : Row Rat} (h : s.Leftover rest) (k : Rat) :
    s.Leftover (rest.shift k) := h

theorem Leftover.extend {rest : Row Rat} (h : s.Leftover rest)
    (hx : s.Extends s') : s'.Leftover rest :=
  h.mono hx.nextId fun _ hfree i g hi => hfree i g (hx.registry ▸ hi)

-- ============================================================= reading

/-- Symbols that are not external are not read. -/
theorem read_congr (hw : s.WellBound) {v w : Symbol → Rat}
    (h : ∀ x, x.isExternal = true → v x = w x) : s.read v = s.read w := by
  funext x
  unfold read
  cases hx : s.symbol? x with
  | none => rfl
  | some y => exact h y (hw.external hx)

theorem read_update (hw : s.WellBound) {x : Symbol}
    (hx : x.isExternal = false) (v : Symbol → Rat) (a : Rat) :
    s.read (Function.update v x a) = s.read v := by
  exact read_congr hw fun y hy =>
    Function.update_of_ne (Symbol.ne_of_test hy hx) a v

/-- A constraint whose variables are bound reads them the same when others
are bound too. -/
theorem Extends.valueUnder_read (h : s.Extends s') {e : Expression Rat}
    (hb : ∀ t ∈ e.terms, t.coefficient ≠ 0 → ∃ y, s.symbol? t.var = some y)
    (v : Symbol → Rat) :
    e.valueUnder (s'.read v) = e.valueUnder (s.read v) := by
  refine Expression.valueUnder_congr fun t ht h0 => ?_
  obtain ⟨y, hy⟩ := hb t ht h0
  rw [read_of_symbol? hy, read_of_symbol? (h.bound hy)]

-- =========================================================== objective

/-- The penalty grows with the symbols that are not external. -/
theorem penalty_mono
    (hreg : ∀ {i g}, s.registry.get? i = some g → s.Registers i g)
    {v w : Symbol → Rat} (h : ∀ x, x.isExternal = false → v x ≤ w x) :
    s.penalty v ≤ s.penalty w := by
  refine Table.sum_le_sum fun i g hg => ?_
  have hr := hreg hg
  refine mul_le_mul_of_nonneg_left ?_ hr.weight
  exact Footprint.errors_le fun x hx => h x (hr.fits.not_external hx)

theorem Leftover.value_mono {rest : Row Rat} (h : s.Leftover rest)
    {v w : Symbol → Rat} (hle : ∀ x, x.isExternal = false → v x ≤ w x) :
    rest.value v ≤ rest.value w := by
  refine Row.value_le_value fun x => ?_
  by_cases h0 : rest.coefficient x = 0
  · rw [h0, zero_mul, zero_mul]
  · obtain ⟨hpos, hkind, -, -⟩ := h x h0
    exact mul_le_mul_of_nonneg_left
      (hle x (Symbol.isExternal_of_kind hkind (by decide))) hpos

/-- An objective that is the penalty and leftovers is monotone. -/
theorem monotone_of_objective
    (hreg : ∀ {i g}, s.registry.get? i = some g → s.Registers i g)
    (hobj : ∃ rest, s.Leftover rest ∧ ∀ v, s.tableau.Solves v →
      s.tableau.objective.value v = s.penalty v + rest.value v) :
    s.tableau.Monotone s.tableau.objective := by
  obtain ⟨rest, hrest, hobj⟩ := hobj
  intro v w hv hw hle
  rw [hobj v hv, hobj w hw]
  exact add_le_add (penalty_mono hreg hle) (hrest.value_mono hle)

theorem Consistent.monotone (h : s.Consistent goal) :
    s.tableau.Monotone s.tableau.objective :=
  monotone_of_objective h.registered h.objective

-- ========================================================= restatement

/-- The solver with another tableau. -/
def withTableau (s : Solver Rat) (t : Tableau Rat) : Solver Rat :=
  { s with tableau := t }

/-- A tableau that restates the old one has its objective. -/
theorem Owes.restate {rest : Row Rat} (h : s.Owes rest) {t : Tableau Rat}
    (hre : s.tableau.Restates t) : (s.withTableau t).Owes rest := by
  intro v hv
  have hv := (hre.solves v).1 hv
  exact (hre.objective v hv).trans (h v hv)

/-- A tableau that restates the old one keeps the solver consistent. -/
theorem Consistent.restate (h : s.Consistent goal) {t : Tableau Rat}
    (hre : s.tableau.Restates t) : (s.withTableau t).Consistent goal where
  canonical := hre.canonical
  fresh := fun hx => hre.unused (h.fresh hx)
  wellBound := ⟨h.wellBound.external, h.wellBound.below,
    h.wellBound.injective⟩
  registered := fun hg => (h.registered hg).mono (le_refl _) id
  disjoint := h.disjoint
  separated := hre.separated h.separated
  auxiliary := by
    have ha := hre.auxiliary _ h.canonical.solves_solution
    rw [h.auxiliary] at ha
    exact Option.map_eq_none_iff.1 ha
  required := h.required
  solves := fun v => (hre.solves v).trans (h.solves v)
  objective := by
    obtain ⟨rest, hrest, hobj⟩ := h.objective
    exact ⟨rest, hrest, Owes.restate hobj hre⟩
  edits := fun he => (h.edits he).mono (le_refl _) Or.inl fun _ hx => hx

/-- A reading of the objective that is worth the same. -/
theorem Owes.extend {rest : Row Rat} (h : s.Owes rest) (hx : s.Extends s')
    (ht : s'.tableau = s.tableau.withObjective s'.tableau.objective)
    (ho : ∀ v, s'.tableau.objective.value v = s.tableau.objective.value v) :
    s'.Owes rest := by
  intro v hv
  rw [ht] at hv
  rw [ho, h v hv]
  unfold penalty
  rw [hx.registry]

/-- New symbols and bindings, and a reading of the objective that is worth
the same, keep the solver consistent. -/
theorem Consistent.extend (h : s.Consistent goal) (hx : s.Extends s')
    (hg : s'.Grounded) (hsep : s'.tableau.Separated)
    (ht : s'.tableau = s.tableau.withObjective s'.tableau.objective)
    (ho : ∀ v, s'.tableau.objective.value v = s.tableau.objective.value v) :
    s'.Consistent goal where
  toGrounded := hg
  registered := fun {i g} hi =>
    (h.registered (hx.registry ▸ hi)).mono hx.nextId hx.bound
  disjoint := fun hi hj => h.disjoint (hx.registry ▸ hi) (hx.registry ▸ hj)
  separated := hsep
  auxiliary := by
    rw [ht]
    exact h.auxiliary
  required := fun hi => h.required (hx.registry ▸ hi)
  solves := by
    intro v
    have hrows : s'.tableau.Solves v ↔ s.tableau.Solves v := by
      rw [ht]
      exact Iff.rfl
    rw [hrows, h.solves]
    unfold Balances Registration.Balanced
    rw [hx.registry]
    refine forall_congr' fun i => forall_congr' fun g =>
      forall_congr' fun hi => ?_
    rw [hx.valueUnder_read (h.registered hi).bound]
  objective := by
    obtain ⟨rest, hrest, hobj⟩ := h.objective
    exact ⟨rest, hrest.extend hx, Owes.extend hobj hx ht ho⟩
  edits := fun he => (h.edits (hx.edits ▸ he)).mono hx.nextId
    (fun ⟨i, g, hi, hf⟩ => Or.inl ⟨i, g, by rw [hx.registry, hi], hf⟩)
    fun _ hfree i g hi => hfree i g (hx.registry ▸ hi)

/-- Nor does it unsettle the solver. -/
theorem Settled.extend (h : s.Settled)
    (ht : s'.tableau = s.tableau.withObjective s'.tableau.objective)
    (ho : ∀ v, s'.tableau.objective.value v = s.tableau.objective.value v) :
    s'.Settled where
  feasible := by
    rw [ht]
    exact h.feasible
  dummiesIdle := by
    rw [ht]
    exact h.dummiesIdle
  lowest := h.lowest.congr ho

end Solver

end LinearConstraints
