/-
Redundancy: what the removal of a required equality may let go of.

A required equality that follows from others is kept as a row keyed by its
dummy, which mentions dummies only. When one of those others is removed,
the row should come to bind; but the dummy that keys it is treated as a
slack from then on, which need not be negative and may be anything above.
So the values copied afterwards may break an equality that is still
required.

# When they do

A required constraint that is balanced holds exactly if its marker has a
value that its kind allows. A removal leaves a feasible tableau feasible,
so inequalities are safe; an equality is broken exactly if its dummy is
not zero in the solution. That cannot happen if no dummy's row mentions
the dummy of the constraint that is removed.

Main statements: `Reachable.requiredHold_remove_iff`, and
`requiredHold_not_kept_by_remove`: a redundant equality can be lost.
-/
import LinearConstraints.Proofs.Assignment
import LinearConstraints.Proofs.Transition

namespace LinearConstraints

instance (r : Relation) (x : Rat) : Decidable (r.Holds x) :=
  match r with
  | .lessOrEqual => inferInstanceAs (Decidable (x ≤ 0))
  | .equal => inferInstanceAs (Decidable (x = 0))
  | .greaterOrEqual => inferInstanceAs (Decidable (0 ≤ x))

instance (c : Constraint Rat) (value : Variable → Rat) :
    Decidable (c.Holds value) :=
  inferInstanceAs (Decidable
    (c.relation.Holds (c.expression.valueUnder value)))

namespace Solver

variable {s s' : Solver Rat} {goal : Nat → Rat} {c : Constraint Rat}
  {g : Registration Rat} {i budget : Nat}

/-- The values that are copied satisfy every required constraint. -/
def RequiredHold (s : Solver Rat) : Prop :=
  ∀ d ∈ s.constraints, d.strength.isRequired = true →
    d.Holds s.refresh.value

instance (s : Solver Rat) : Decidable s.RequiredHold :=
  inferInstanceAs (Decidable (∀ d ∈ s.constraints,
    d.strength.isRequired = true → d.Holds s.refresh.value))

-- ============================================================= markers

/-- In the solution, the marker of the constraint has a value that its kind
allows. -/
def Marked (s : Solver Rat) (g : Registration Rat) : Prop :=
  0 ≤ s.tableau.solution g.footprint.marker
    ∧ (g.constraint.relation = .equal →
        s.tableau.solution g.footprint.marker = 0)

/-- A required constraint holds exactly if its marker has an allowed
value. -/
theorem Consistent.holds_iff_marked (h : s.Consistent goal)
    (hi : s.registry.get? i = some g)
    (hr : g.constraint.strength.isRequired = true) :
    g.constraint.Holds s.refresh.value ↔ s.Marked g := by
  rw [value_refresh]
  have hb := (h.solves _).1 h.canonical.solves_solution i g hi
  unfold Registration.Balanced at hb
  rw [h.required hi hr] at hb
  exact Constraint.holds_iff_of_balanced (h.registered hi).fits hr hb

theorem Consistent.requiredHold_iff (h : s.Consistent goal) :
    s.RequiredHold ↔ ∀ i g, s.registry.get? i = some g →
      g.constraint.strength.isRequired = true → s.Marked g := by
  constructor
  · intro hall i g hi hr
    exact (h.holds_iff_marked hi hr).1
      (hall g.constraint (mem_constraints.2 ⟨i, g, hi, rfl⟩) hr)
  · intro hall d hd hr
    obtain ⟨i, g, hi, rfl⟩ := mem_constraints.1 hd
    exact (h.holds_iff_marked hi hr).2 (hall i g hi hr)

/-- In a feasible tableau only dummies can have a value that is not
allowed. -/
theorem Consistent.requiredHold_iff_of_feasible (h : s.Consistent goal)
    (hf : s.tableau.Feasible) :
    s.RequiredHold ↔ ∀ i g, s.registry.get? i = some g →
      g.constraint.strength.isRequired = true →
      g.constraint.relation = .equal →
        s.tableau.solution g.footprint.marker = 0 := by
  rw [h.requiredHold_iff]
  refine forall₄_congr fun i g hi hr => ⟨And.right, fun hz => ⟨?_, hz⟩⟩
  exact hf.solution_nonneg
    ((h.registered hi).fits.not_external (Or.inl rfl))

-- ============================================================= removal

/-- Removing a constraint from a reachable solver leaves values that satisfy
the remaining required constraints exactly if the markers of these have
allowed values. If required equalities were removed before only while
no other row was keyed by a dummy, it is the dummies of the remaining
equalities that must be zero, and they are if no dummy's row mentioned the
marker. -/
theorem Reachable.requiredHold_remove_iff
    (h : Reachable (fun _ c => Command.Built c) s)
    (hi : s.registry.get? c.id = some g)
    (hok : (s.remove budget c).result = .ok ())
    (hs' : (s.remove budget c).state = s') :
    (s'.RequiredHold ↔ ∀ j g', s'.registry.get? j = some g' →
        g'.constraint.strength.isRequired = true → s'.Marked g')
      ∧ (Reachable (fun s c => Command.Built c ∧ s.Spares c) s →
          (s'.RequiredHold ↔ ∀ j g', s'.registry.get? j = some g' →
              g'.constraint.strength.isRequired = true →
              g'.constraint.relation = .equal →
                s'.tableau.solution g'.footprint.marker = 0)
            ∧ (s.Detached g → s'.RequiredHold)) := by
  have hremoved : ∀ {goal}, s.Consistent goal →
      s.Removed c.id g s' goal := by
    intro goal hcons
    rcases remove_cases hcons c budget with
      ⟨hnone, -⟩ | ⟨g', hg', -, hrem⟩ | ⟨e, he, -⟩
    · rw [hi] at hnone
      cases hnone
    · obtain rfl := Option.some.inj (hi.symm.trans hg')
      exact hs' ▸ hrem
    · rw [hok] at he
      cases he
  constructor
  · obtain ⟨goal, hcons⟩ := h.consistent
    exact (hremoved hcons).consistent.requiredHold_iff
  · intro hspared
    obtain ⟨goal, hcons, hset⟩ := hspared.settled
    have hrem := hremoved hcons
    have hiff := hrem.consistent.requiredHold_iff_of_feasible
      (hrem.feasible hset.feasible)
    refine ⟨hiff, fun hfree => hiff.2 fun j g' hj hr he => ?_⟩
    have hd := (hrem.settled hset hfree).dummiesIdle
    have hfits := (hrem.consistent.registered hj).fits
    exact hd.solution_eq_zero (hfits.isDummy_marker_iff.2 ⟨he, hr⟩)

/-- Pins the slider at four. -/
def pin (id : Nat) : Constraint Rat :=
  .relate id (.ofVariable slider) .equal (.ofConstant 4)

/-- Pins the slider twice, and keeps it from below zero. -/
def pinningRun : List (Command Rat) :=
  [.add (pin 0), .add (pin 1), .add (.relate 2
    (.ofVariable slider) .greaterOrEqual (.ofConstant 0))]

/-- The slider that the run ends with. -/
def pinnedSlider : Solver Rat := (Solver.empty.run 10 pinningRun).1

theorem reachable_pinnedSlider :
    Reachable (fun s c => Command.Built c ∧ s.Spares c) pinnedSlider := by
  have hbuilt : ∀ c ∈ pinningRun, c.Built := by
    simp only [pinningRun, List.forall_mem_cons, List.not_mem_nil,
      false_imp_iff, implies_true, and_true, Command.Built]
    exact ⟨.new .., .new .., .new ..⟩
  have hfollows : Follows Spares 10 .empty pinningRun := by decide +kernel
  exact .run (fun _ c hc hg => ⟨hbuilt c hc, hg⟩) .empty hfollows

/-- The first pin is registered, and is a required equality. -/
theorem get?_pinnedSlider : ∃ g, pinnedSlider.registry.get? 0 = some g
    ∧ g.constraint.relation = .equal
    ∧ g.constraint.strength.isRequired = true := by
  have hsome : (pinnedSlider.registry.get? 0).isSome = true := by
    decide +kernel
  have hall : ∀ g ∈ pinnedSlider.registry.get? 0,
      g.constraint.relation = .equal
        ∧ g.constraint.strength.isRequired = true := by decide +kernel
  obtain ⟨g, hg⟩ := Option.isSome_iff_exists.1 hsome
  exact ⟨g, hg, hall g hg⟩

/-- Taking the first pin out comes to an end. -/
theorem remove_pinnedSlider :
    (pinnedSlider.remove 10 (pin 0)).result = .ok () :=
  Outcome.result_eq_ok (by decide +kernel)

/-- With the first pin gone, the second holds exactly if its dummy is
zero. -/
theorem requiredHold_remove_pinnedSlider_iff :
    Reachable (fun s c => Command.Built c ∧ s.Spares c) pinnedSlider
      ∧ (pinnedSlider.remove 10 (pin 0)).result = .ok ()
      ∧ ((pinnedSlider.remove 10 (pin 0)).state.RequiredHold
        ↔ ∀ j g, (pinnedSlider.remove 10 (pin 0)).state.registry.get? j
            = some g → g.constraint.strength.isRequired = true →
            g.constraint.relation = .equal →
              (pinnedSlider.remove 10 (pin 0)).state.tableau.solution
                g.footprint.marker = 0) := by
  obtain ⟨g, hg, -, -⟩ := get?_pinnedSlider
  have hspared := reachable_pinnedSlider
  have hok := remove_pinnedSlider
  obtain ⟨-, hrest⟩ := Reachable.requiredHold_remove_iff
    (hspared.mono fun _ _ h => h.1) hg hok rfl
  exact ⟨hspared, hok, (hrest hspared).1⟩

/-- A required equality can be removed with the result that another one,
which was redundant beside it, is no longer satisfied. -/
theorem requiredHold_not_kept_by_remove :
    ¬ ∀ (s : Solver Rat) (c : Constraint Rat) (g : Registration Rat)
        (budget : Nat),
      Reachable (fun _ c => Command.Built c) s →
      s.registry.get? c.id = some g →
      g.constraint.relation = .equal →
      g.constraint.strength.isRequired = true →
      (s.remove budget c).result = .ok () →
        (s.remove budget c).state.RequiredHold := by
  intro hall
  obtain ⟨g, hg, hrel, hreq⟩ := get?_pinnedSlider
  have hlost : ¬ (pinnedSlider.remove 10 (pin 0)).state.RequiredHold := by
    decide +kernel
  exact hlost (hall pinnedSlider (pin 0) g 10
    (reachable_pinnedSlider.mono fun _ _ h => h.1) hg hrel hreq
    remove_pinnedSlider)

end Solver

end LinearConstraints
