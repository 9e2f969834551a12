/-
Satisfiability: a constraint is refused exactly if it has to be.

The solution of a settled solver satisfies every required constraint, so
what has been accepted is satisfiable. Values that satisfy a refused
constraint and the registered ones would lift to a proper valuation that
balances them all, and a refusal says that there is none.

Main statement: `Reachable.unsatisfiable_iff`.
-/
import LinearConstraints.Proofs.Assignment
import LinearConstraints.Proofs.Transition

namespace LinearConstraints.Solver

open Function (update)

variable {s s' : Solver Rat} {goal : Nat → Rat} {value : Variable → Rat}
  {c : Constraint Rat} {f : Footprint} {budget : Nat}

/-- Adding fails as registering does. -/
theorem error_of_add_iff {e : Error Rat} :
    (s.add budget c).result = .error e
      ↔ (s.register budget c).result = .error e := by
  unfold add Outcome.andThen
  cases hr : (s.register budget c).result with
  | ok f => exact ⟨fun h => (by cases h), fun h => by cases h⟩
  | error e' =>
      exact ⟨fun h => congrArg _ (Except.error.inj h),
        fun h => congrArg _ (Except.error.inj h)⟩

/-- Meeting the goals with one more constraint, whose goal is zero. -/
theorem meets_withRegistration (hnew : s.registry.get? c.id = none)
    (hreg : s'.registry = s.registry.insert c.id ⟨c, f⟩) :
    s'.Meets (update goal c.id 0) value
      ↔ s.Meets goal value
        ∧ (c.strength.isRequired = true → c.Holds value) := by
  have hget : ∀ i, s'.registry.get? i
      = if c.id = i then some ⟨c, f⟩ else s.registry.get? i := by
    intro i
    rw [hreg, Table.get?_insert]
  constructor
  · refine fun hmeets => ⟨fun i g hi hr => ?_, fun hr => ?_⟩
    · have hne := Table.ne_of_get? hi hnew
      have := hmeets i g (by rw [hget, if_neg hne.symm, hi]) hr
      rwa [Function.update_of_ne hne] at this
    · have := hmeets c.id ⟨c, f⟩ (by rw [hget, if_pos rfl]) hr
      rwa [Function.update_self, sub_zero] at this
  · intro hboth i g hi hr
    obtain ⟨hmeets, hc⟩ := hboth
    rw [hget] at hi
    split at hi
    case isTrue hid =>
      subst hid
      obtain rfl := Option.some.inj hi
      rw [Function.update_self, sub_zero]
      exact hc hr
    case isFalse hid =>
      rw [Function.update_of_ne (Ne.symm hid)]
      exact hmeets i g hi hr

/-- Nothing satisfies a refused constraint and the registered ones. -/
theorem Refused.unsatisfied (h : s.Refused c s' goal) (hs : s.Settled)
    (hmeets : s.Meets goal value) : ¬ c.Holds value := by
  intro hc
  obtain ⟨f, hord, hno⟩ := h.unbalanced hs
  have hreg : (s'.withRegistration c f).registry
      = s.registry.insert c.id ⟨c, f⟩ := by
    rw [← h.extend.registry]
    rfl
  have hlift := hord.lifts
    ((meets_withRegistration h.new hreg).2 ⟨hmeets, fun _ => hc⟩)
  exact hno _ hlift.proper hlift.balances

/-- Something satisfies an accepted constraint and the registered ones. -/
theorem Registered.satisfied (h : s.Registered c f s' goal)
    (hs : s.Settled) :
    ∃ value, s.Meets goal value
      ∧ (c.strength.isRequired = true → c.Holds value) := by
  obtain ⟨hp, hb⟩ := h.consistent.solution_spec (h.settled hs)
  exact ⟨_, (meets_withRegistration h.new h.registry).1
    (h.consistent.meets_read hp hb)⟩

/-- A new constraint is refused as unsatisfiable exactly if it is required
and no values of the variables satisfy it together with the registered
constraints that are required. -/
theorem Reachable.unsatisfiable_iff
    (h : Reachable (fun s c => Command.Built c ∧ s.Spares c) s)
    (hb : c.Built) (hnew : s.contains c = false)
    (hret : (s.add budget c).Returned) :
    (∃ d conflicting, (s.add budget c).result
        = .error (.unsatisfiable d conflicting))
      ↔ c.strength.isRequired = true
        ∧ ¬ ∃ value, c.Holds value ∧ ∀ d ∈ s.constraints,
            d.strength.isRequired = true → d.Holds value := by
  obtain ⟨goal, hcons, hset⟩ := h.settled
  simp only [error_of_add_iff, ← hcons.meets_iff]
  rcases register_cases hcons hb.weight budget with
    ⟨hc, -⟩ | ⟨hres, href⟩ | ⟨f, hres, hreg⟩ | ⟨e, hres, he⟩
  · rw [hnew] at hc
    cases hc
  · refine iff_of_true ⟨c, s.constraints, hres⟩ ⟨href.required, ?_⟩
    intro hmodel
    obtain ⟨value, hc, hmeets⟩ := hmodel
    exact href.unsatisfied hset hmeets hc
  · refine iff_of_false ?_ ?_
    · intro hrefused
      obtain ⟨d, conflicting, herr⟩ := hrefused
      rw [hres] at herr
      cases herr
    · intro hboth
      obtain ⟨hr, hno⟩ := hboth
      obtain ⟨value, hmeets, hc⟩ := hreg.satisfied hset
      exact hno ⟨value, hc hr, hmeets⟩
  · have := hret e (error_of_add_iff.2 hres)
    rw [he] at this
    cases this

/-- A constraint that asks the slider to go past its end. -/
def pastEnd : Constraint Rat :=
  .relate 4 (.ofVariable slider) .greaterOrEqual (.ofConstant 11)

/-- What is refused of the slider is what nothing satisfies. -/
theorem pulledSlider_unsatisfiable_iff :
    pastEnd.Built ∧ pulledSlider.contains pastEnd = false
      ∧ (pulledSlider.add 10 pastEnd).Returned
      ∧ ((∃ d conflicting, (pulledSlider.add 10 pastEnd).result
            = .error (.unsatisfiable d conflicting))
          ↔ pastEnd.strength.isRequired = true
            ∧ ¬ ∃ value, pastEnd.Holds value
              ∧ ∀ d ∈ pulledSlider.constraints,
                  d.strength.isRequired = true → d.Holds value) := by
  have hreach : Reachable (fun s c => Command.Built c ∧ s.Spares c)
      pulledSlider :=
    reachable_pulledSlider.mono fun _ _ h => ⟨h.1, h.2.1⟩
  have hbuilt : pastEnd.Built := .new ..
  have hnew : pulledSlider.contains pastEnd = false := by decide +kernel
  have hret : (pulledSlider.add 10 pastEnd).Returned := by decide +kernel
  exact ⟨hbuilt, hnew, hret,
    Reachable.unsatisfiable_iff hreach hbuilt hnew hret⟩

end LinearConstraints.Solver
