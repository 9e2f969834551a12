/-
Assignments: values of the variables, and valuations of the symbols.

A proper valuation that balances the registered constraints is read as
values of the variables that satisfy the required ones and violate the
others by no more than their errors. Conversely, values that satisfy the
required constraints lift to such a valuation, whose errors are the
violations and no more (`lift`). So what the tableau minimises over proper
valuations is minimised over the values of the variables.

Main statements: `Orderly.meets_read`, `Orderly.loss_read_le` and
`Orderly.lifts`; `Consistent.meets_iff`, which says what the goals have to
do with the constraints as callers know them.
-/
import LinearConstraints.Proofs.Consistent

namespace LinearConstraints

/-- The value that lifting gives to a symbol of a constraint: what there is
to spare to the marker, what there is too much to the companion. -/
def Registration.part (g : Registration Rat) (value : Variable → Rat)
    (goal : Rat) (x : Symbol) : Rat :=
  let excess := g.constraint.expression.valueUnder value - goal
  if x = g.footprint.marker then max (-(g.constraint.sign * excess)) 0
  else max (g.constraint.sign * excess) 0

theorem Registration.part_nonneg (g : Registration Rat)
    (value : Variable → Rat) (goal : Rat) (x : Symbol) :
    0 ≤ g.part value goal x := by
  unfold part
  dsimp only
  split <;> exact le_max_right _ 0

namespace Solver

variable {s : Solver Rat} {goal : Nat → Rat} {value : Variable → Rat}

/-- The values satisfy every required constraint at its goal. -/
def Meets (s : Solver Rat) (goal : Nat → Rat) (value : Variable → Rat) :
    Prop :=
  ∀ i g, s.registry.get? i = some g →
    g.constraint.strength.isRequired = true →
    g.constraint.relation.Holds
      (g.constraint.expression.valueUnder value - goal i)

/-- The weighted violations of the constraints that are not required. -/
def loss (s : Solver Rat) (goal : Nat → Rat) (value : Variable → Rat) :
    Rat :=
  s.registry.sum fun i g =>
    if g.constraint.strength.isRequired then 0
    else g.constraint.strength.value * g.constraint.relation.violation
      (g.constraint.expression.valueUnder value - goal i)

-- ============================================================= reading

/-- A balanced constraint is balanced by its excess over the goal. -/
private theorem excess_of_balanced {g : Registration Rat} {k : Rat}
    {v : Symbol → Rat} (h : g.Balanced value k v) :
    g.constraint.expression.valueUnder value - k
      + g.constraint.sign * g.footprint.gap v = 0 := by
  unfold Registration.Balanced at h
  linarith

/-- A proper valuation that balances the constraints is read as values that
satisfy the required ones. -/
theorem Orderly.meets_read (h : s.Orderly) {v : Symbol → Rat}
    (hp : Tableau.Proper v) (hb : s.Balances goal v) :
    s.Meets goal (s.read v) :=
  fun i g hi hr => Constraint.holds_of_balanced (h.registered hi).fits hr hp
    (excess_of_balanced (hb i g hi))

/-- The values read lose no more than the penalty. -/
theorem Orderly.loss_read_le (h : s.Orderly) {v : Symbol → Rat}
    (hp : Tableau.Proper v) (hb : s.Balances goal v) :
    s.loss goal (s.read v) ≤ s.penalty v := by
  refine Table.sum_le_sum fun i g hi => ?_
  have hreg := h.registered hi
  unfold Registration.penalty
  cases hr : g.constraint.strength.isRequired with
  | true =>
      rw [if_pos rfl, hreg.fits.errors_eq_zero hr, mul_zero]
  | false =>
      rw [if_neg Bool.false_ne_true]
      exact mul_le_mul_of_nonneg_left
        (Constraint.violation_le_errors hreg.fits hr hp
          (excess_of_balanced (hb i g hi))) hreg.weight

-- ============================================================= lifting

/-- The variable that is bound to a symbol. -/
def boundTo? (s : Solver Rat) (x : Symbol) : Option Variable :=
  (s.bindings.entries.find? fun e => decide (e.2.symbol = x)).map Prod.fst

instance (f : Footprint) (x : Symbol) : Decidable (f.Mentions x) :=
  inferInstanceAs (Decidable (x = f.marker ∨ f.companion = some x))

/-- The number and registration of the constraint that has a symbol. -/
def owner? (s : Solver Rat) (x : Symbol) :
    Option (Nat × Registration Rat) :=
  s.registry.entries.find? fun e => decide (e.2.footprint.Mentions x)

/-- The valuation of the symbols that goes with values of the variables. -/
def lift (s : Solver Rat) (goal : Nat → Rat) (value : Variable → Rat)
    (x : Symbol) : Rat :=
  match s.boundTo? x with
  | some y => value y
  | none =>
      match s.owner? x with
      | some (i, g) => g.part value (goal i) x
      | none => 0

/-- The variable found at a symbol is bound to it. -/
theorem symbol?_of_boundTo? {x : Symbol} {y : Variable}
    (h : s.boundTo? x = some y) : s.symbol? y = some x := by
  obtain ⟨⟨y', b⟩, hfind, rfl⟩ := Option.map_eq_some_iff.1 h
  have hb := Table.get?_eq_some_iff.2 (List.mem_of_find?_eq_some hfind)
  have hx := List.find?_some hfind
  unfold symbol?
  rw [hb]
  exact congrArg some (of_decide_eq_true hx)

/-- Every bound symbol has its variable. -/
theorem boundTo?_of_symbol? (hw : s.WellBound) {x : Symbol} {y : Variable}
    (h : s.symbol? y = some x) : s.boundTo? x = some y := by
  cases hx : s.boundTo? x with
  | some y' => rw [hw.injective (symbol?_of_boundTo? hx) h]
  | none =>
      obtain ⟨b, hb, hbx⟩ := Option.map_eq_some_iff.1 h
      have hfind := List.find?_eq_none.1 (Option.map_eq_none_iff.1 hx)
        (y, b) (Table.get?_eq_some_iff.1 hb)
      exact absurd (decide_eq_true hbx) hfind

/-- A symbol of a constraint is not bound, and belongs to no other. -/
theorem Orderly.owner?_of_mentions (h : s.Orderly) {i : Nat}
    {g : Registration Rat} (hi : s.registry.get? i = some g) {x : Symbol}
    (hx : g.footprint.Mentions x) :
    s.boundTo? x = none ∧ s.owner? x = some (i, g) := by
  constructor
  · cases hv : s.boundTo? x with
    | none => rfl
    | some y =>
        have hext := h.wellBound.external (symbol?_of_boundTo? hv)
        rw [(h.registered hi).fits.not_external hx] at hext
        cases hext
  · cases ho : s.owner? x with
    | none =>
        have hfind := List.find?_eq_none.1 ho (i, g)
          (Table.get?_eq_some_iff.1 hi)
        exact absurd (decide_eq_true hx) hfind
    | some e =>
        obtain ⟨j, g'⟩ := e
        have hm := List.find?_some ho
        have hj := Table.get?_eq_some_iff.2 (List.mem_of_find?_eq_some ho)
        obtain rfl := h.disjoint hi hj hx (of_decide_eq_true hm)
        rw [Option.some.inj (hi.symm.trans hj)]

theorem lift_of_symbol? (hw : s.WellBound) {x : Symbol} {y : Variable}
    (h : s.symbol? y = some x) : s.lift goal value x = value y := by
  unfold lift
  rw [boundTo?_of_symbol? hw h]

theorem Orderly.lift_of_mentions (h : s.Orderly) {i : Nat}
    {g : Registration Rat} (hi : s.registry.get? i = some g) {x : Symbol}
    (hx : g.footprint.Mentions x) :
    s.lift goal value x = g.part value (goal i) x := by
  obtain ⟨hv, ho⟩ := h.owner?_of_mentions hi hx
  unfold lift
  rw [hv, ho]

/-- Symbols that belong to nothing are zero. -/
theorem lift_of_free (hw : s.WellBound) {x : Symbol}
    (hx : x.isExternal = false) (hfree : s.Free x) :
    s.lift goal value x = 0 := by
  have hv : s.boundTo? x = none := by
    cases hv : s.boundTo? x with
    | none => rfl
    | some y =>
        have hext := hw.external (symbol?_of_boundTo? hv)
        rw [hx] at hext
        cases hext
  have ho : s.owner? x = none := by
    refine List.find?_eq_none.2 fun e he hm => ?_
    exact hfree e.1 e.2 (Table.get?_eq_some_iff.2 he) (of_decide_eq_true hm)
  unfold lift
  rw [hv, ho]

/-- The lifted valuation is read as the values, where variables are
bound. -/
theorem valueUnder_read_lift (hw : s.WellBound) {e : Expression Rat}
    (hb : ∀ t ∈ e.terms, t.coefficient ≠ 0 → ∃ y, s.symbol? t.var = some y) :
    e.valueUnder (s.read (s.lift goal value)) = e.valueUnder value := by
  refine Expression.valueUnder_congr fun t ht h0 => ?_
  obtain ⟨y, hy⟩ := hb t ht h0
  rw [read_of_symbol? hy, lift_of_symbol? hw hy]

/-- What the lifted valuation does for one constraint. -/
private theorem Orderly.lift_spec (h : s.Orderly)
    (hmeets : s.Meets goal value) {i : Nat} {g : Registration Rat}
    (hi : s.registry.get? i = some g) :
    g.Balanced (s.read (s.lift goal value)) (goal i) (s.lift goal value)
      ∧ (g.footprint.marker.isDummy = true →
          s.lift goal value g.footprint.marker = 0)
      ∧ (g.constraint.strength.isRequired = false →
          g.footprint.errors (s.lift goal value)
            = g.constraint.relation.violation
                (g.constraint.expression.valueUnder value - goal i)) := by
  have hreg := h.registered hi
  have hmarker : s.lift goal value g.footprint.marker
      = max (-(g.constraint.sign
          * (g.constraint.expression.valueUnder value - goal i))) 0 := by
    rw [h.lift_of_mentions hi (Or.inl rfl)]
    exact if_pos rfl
  have hcompanion : ∀ y, g.footprint.companion = some y →
      s.lift goal value y = max (g.constraint.sign
        * (g.constraint.expression.valueUnder value - goal i)) 0 := by
    intro y hy
    rw [h.lift_of_mentions hi (Or.inr hy)]
    refine if_neg ?_
    intro heq
    subst heq
    exact hreg.apart hy
  obtain ⟨hb, hd, he⟩ := Constraint.balanced_of_parts hreg.fits
    (hmeets i g hi) hmarker hcompanion
  refine ⟨?_, hd, he⟩
  unfold Registration.Balanced
  rw [valueUnder_read_lift h.wellBound hreg.bound]
  linarith

/-- What lifting comes to: a proper valuation that balances every
constraint, whose penalty is the loss. -/
structure Lifts (s : Solver Rat) (goal : Nat → Rat)
    (value : Variable → Rat) (v : Symbol → Rat) : Prop where
  proper : Tableau.Proper v
  balances : s.Balances goal v
  penalty : s.penalty v = s.loss goal value
  free : ∀ x, x.isExternal = false → s.Free x → v x = 0

/-- Values that satisfy the required constraints lift. -/
theorem Orderly.lifts (h : s.Orderly) (hmeets : s.Meets goal value) :
    s.Lifts goal value (s.lift goal value) where
  proper := by
    refine ⟨fun {x} hx => ?_, fun {x} hx => ?_⟩
    · by_cases hfree : s.Free x
      · exact le_of_eq (lift_of_free h.wellBound hx hfree).symm
      · unfold Free at hfree
        push Not at hfree
        obtain ⟨i, g, hi, hm⟩ := hfree
        rw [h.lift_of_mentions hi hm]
        exact g.part_nonneg ..
    · have hext : x.isExternal = false := by
        unfold Symbol.isDummy at hx
        exact Symbol.isExternal_of_kind (beq_iff_eq.1 hx) (by decide)
      by_cases hfree : s.Free x
      · exact lift_of_free h.wellBound hext hfree
      · unfold Free at hfree
        push Not at hfree
        obtain ⟨i, g, hi, hm⟩ := hfree
        obtain rfl := (h.registered hi).fits.eq_marker_of_isDummy hm hx
        exact (h.lift_spec hmeets hi).2.1 hx
  balances := fun i g hi => (h.lift_spec hmeets hi).1
  penalty := by
    refine Table.sum_congr fun i g hi => ?_
    unfold Registration.penalty
    cases hr : g.constraint.strength.isRequired with
    | true =>
        rw [if_pos rfl, (h.registered hi).fits.errors_eq_zero hr, mul_zero]
    | false =>
        rw [if_neg Bool.false_ne_true, (h.lift_spec hmeets hi).2.2 hr]
  free := fun _ hx hfree => lift_of_free h.wellBound hx hfree

-- ================================================= consistent solvers

theorem mem_constraints {d : Constraint Rat} :
    d ∈ s.constraints
      ↔ ∃ i g, s.registry.get? i = some g ∧ g.constraint = d := by
  unfold constraints Table.values
  rw [List.map_map, List.mem_map]
  constructor
  · intro hin
    obtain ⟨⟨i, g⟩, hmem, rfl⟩ := hin
    exact ⟨i, g, Table.get?_eq_some_iff.2 hmem, rfl⟩
  · intro hin
    obtain ⟨i, g, hi, rfl⟩ := hin
    exact ⟨(i, g), Table.get?_eq_some_iff.1 hi, rfl⟩

/-- The goal of a required constraint is zero, so to meet it is to satisfy
the constraint. -/
theorem Consistent.meets_iff (h : s.Consistent goal) :
    s.Meets goal value ↔ ∀ d ∈ s.constraints,
      d.strength.isRequired = true → d.Holds value := by
  constructor
  · intro hmeets d hd hr
    obtain ⟨i, g, hi, rfl⟩ := mem_constraints.1 hd
    have := hmeets i g hi hr
    rwa [h.required hi hr, sub_zero] at this
  · intro hall i g hi hr
    rw [h.required hi hr, sub_zero]
    exact hall g.constraint (mem_constraints.2 ⟨i, g, hi, rfl⟩) hr

/-- The solution of a settled solver is proper and balances every
constraint. -/
theorem Consistent.solution_spec (h : s.Consistent goal)
    (hs : s.Settled) :
    Tableau.Proper s.tableau.solution
      ∧ s.Balances goal s.tableau.solution :=
  ⟨Tableau.proper_solution hs.feasible hs.dummiesIdle,
    (h.solves _).1 h.canonical.solves_solution⟩

end Solver

end LinearConstraints
