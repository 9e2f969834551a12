/-
Optimality: the values that a solver gives its variables are the best.

The solution of a settled solver is read as values that satisfy every
required constraint and lose no more than the objective is worth. Values
that satisfy the required constraints lift to a proper valuation at which
the objective is worth what they lose; and no proper valuation makes the
objective worth less than the solution does. What the objective counts
beside the penalty does not matter: it is least at the lifted valuation.

Main statement: `Reachable.isOptimal`.
-/
import LinearConstraints.Proofs.Assignment
import LinearConstraints.Proofs.Target

namespace LinearConstraints.Solver

variable {s : Solver Rat} {goal : Nat → Rat} {value : Variable → Rat}

-- =============================================================== goals

/-- Nothing that meets the goals loses less than the solution of a settled
solver. -/
theorem Consistent.loss_le (h : s.Consistent goal) (hs : s.Settled)
    (hmeets : s.Meets goal value) :
    s.loss goal (s.read s.tableau.solution) ≤ s.loss goal value := by
  obtain ⟨rest, hrest, hobj⟩ := h.objective
  obtain ⟨hp, hb⟩ := h.solution_spec hs
  have hlift := h.lifts hmeets
  have hsolves := (h.solves _).2 hlift.balances
  have hrest_lift : rest.value (s.lift goal value) = rest.constant := by
    refine Row.value_eq_constant fun x => ?_
    by_cases h0 : rest.coefficient x = 0
    · rw [h0, zero_mul]
    · obtain ⟨-, hkind, -, hfree⟩ := hrest x h0
      rw [hlift.free x (Symbol.isExternal_of_kind hkind (by decide)) hfree,
        mul_zero]
  have hrest_solution : rest.constant ≤ rest.value s.tableau.solution := by
    refine Row.constant_le_value fun x => ?_
    by_cases h0 : rest.coefficient x = 0
    · rw [h0, zero_mul]
    · obtain ⟨hpos, hkind, -, -⟩ := hrest x h0
      exact mul_nonneg hpos
        (hp.nonneg (Symbol.isExternal_of_kind hkind (by decide)))
  have hleast : s.tableau.objective.constant
      ≤ s.tableau.objective.value (s.lift goal value) :=
    Row.constant_le_value_of_lowest h.separated.objective hs.lowest
      hlift.proper
  have hworth : s.penalty s.tableau.solution
        + rest.value s.tableau.solution
      ≤ s.loss goal value + rest.value (s.lift goal value) := by
    rw [← hlift.penalty, ← hobj _ hsolves,
      ← hobj _ h.canonical.solves_solution,
      h.canonical.value_solution .objective]
    exact hleast
  have hread := h.loss_read_le hp hb
  linarith

-- ============================================================= targets

/-- A sum over the entries that fail a test. -/
private theorem sum_filter_not {β : Type} (p : β → Bool) (f : β → Rat)
    (l : List β) :
    ((l.filter fun b => !p b).map f).sum
      = (l.map fun b => if p b then 0 else f b).sum := by
  induction l with
  | nil => rfl
  | cons b l ih =>
      cases hb : p b with
      | true => simp [hb, ih]
      | false => simp [hb, ih]

/-- What a valuation costs is what it loses. -/
theorem Coherent.cost_eq (h : s.Coherent goal) (ho : s.Orderly)
    (value : Variable → Rat) : s.cost value = s.loss goal value := by
  have hfilter := sum_filter_not
    (fun c : Constraint Rat => c.strength.isRequired)
    (fun c => c.strength.value * c.relation.violation (s.excess value c))
    s.constraints
  refine Eq.trans hfilter ?_
  unfold constraints
  rw [List.map_map]
  refine Eq.trans (Table.sum_values s.registry _) ?_
  refine Table.sum_congr fun i g hi => ?_
  dsimp only [Function.comp_apply]
  unfold excess
  rw [h.target_eq hi (ho.registered hi).key]

/-- The target of a required constraint is zero, so to be admitted is to
satisfy all of them. -/
theorem Coherent.admits_iff (h : s.Coherent goal)
    (hcons : s.Consistent goal) :
    s.Admits value ↔ s.Meets goal value := by
  unfold Admits excess
  constructor
  · intro hall i g hi hr
    have := hall g.constraint (mem_constraints.2 ⟨i, g, hi, rfl⟩) hr
    rwa [h.target_eq hi (hcons.registered hi).key] at this
  · intro hmeets d hd hr
    obtain ⟨i, g, hi, rfl⟩ := mem_constraints.1 hd
    rw [h.target_eq hi (hcons.registered hi).key]
    exact hmeets i g hi hr

/-- The values copied from a settled, coherent solver are optimal. -/
theorem Coherent.isOptimal_read (h : s.Coherent goal)
    (hcons : s.Consistent goal) (hs : s.Settled) :
    s.IsOptimal (s.read s.tableau.solution) := by
  obtain ⟨hp, hb⟩ := hcons.solution_spec hs
  refine ⟨(h.admits_iff hcons).2 (hcons.meets_read hp hb),
    fun other hother => ?_⟩
  rw [h.cost_eq hcons.toOrderly, h.cost_eq hcons.toOrderly]
  exact hcons.loss_le hs ((h.admits_iff hcons).1 hother)

/-- In the states of such a run everything that the search for a minimum
relies on holds. -/
theorem Reachable.settled_coherent
    (h : Reachable
      (fun s c => Command.Built c ∧ s.Spares c ∧ s.KeepsEdits c) s) :
    ∃ goal, s.Consistent goal ∧ s.Settled ∧ s.Coherent goal :=
  h.induction (P := fun s goal => s.Settled ∧ s.Coherent goal)
    (fun _ _ may => may.1) ⟨settled_empty, coherent_empty _⟩
    fun may hc ht ⟨hset, hcoh⟩ =>
      ⟨ht.settled hc hset may.2.1, ht.coherent hc hcoh may.2.2⟩

/-- After every command of a run that removes the constraints of edits only
with the edits, and required equalities only while no other row is keyed by
a dummy, the values that are copied satisfy every required constraint and,
of all that do, violate the others least. -/
theorem Reachable.isOptimal
    (h : Reachable
      (fun s c => Command.Built c ∧ s.Spares c ∧ s.KeepsEdits c) s) :
    (∀ d ∈ s.constraints, d.strength.isRequired = true →
        d.Holds s.refresh.value)
      ∧ s.IsOptimal s.refresh.value := by
  obtain ⟨goal, hcons, hset, hcoh⟩ := h.settled_coherent
  obtain ⟨hp, hb⟩ := hcons.solution_spec hset
  rw [value_refresh]
  exact ⟨hcons.meets_iff.1 (hcons.meets_read hp hb),
    hcoh.isOptimal_read hcons hset⟩

/-- The slider comes to rest at its end: no value in its range is nearer to
the one suggested. -/
theorem pulledSlider_isOptimal :
    Reachable (fun s c => Command.Built c ∧ s.Spares c ∧ s.KeepsEdits c)
        pulledSlider
      ∧ (∀ d ∈ pulledSlider.constraints, d.strength.isRequired = true →
          d.Holds pulledSlider.refresh.value)
      ∧ pulledSlider.IsOptimal pulledSlider.refresh.value
      ∧ pulledSlider.refresh.value slider = 10 := by
  have hreach := reachable_pulledSlider
  obtain ⟨hholds, hoptimal⟩ := Reachable.isOptimal hreach
  exact ⟨hreach, hholds, hoptimal, by decide +kernel⟩

end LinearConstraints.Solver
