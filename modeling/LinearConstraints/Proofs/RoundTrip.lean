/-
Round trip: adding a constraint and taking it out again.

Afterwards the same constraints are registered, so the values copied are
as good as those before. They need not be the same: where several valuations
are optimal, the way to the constraint and back may end at another of them.
A variable that has one value in all of them has it again.

That the removal leaves an optimum needs a word. It does if no dummy's row
mentions the marker of the constraint; and none does just after it has been
added, because the rows of the dummies stay as they are while symbols that
are no dummies enter (`Tableau.Clear`). So the way back is open also where
other removals of equalities would do harm.

Main statements: `Consistent.detached_of_register`; `Reachable.roundTrip`;
`values_not_restored`: with several optima, or after a removal that took
the hold of a required equality or severed an edit, values differ.
-/
import LinearConstraints.Proofs.Optimality
import LinearConstraints.Proofs.Ownership
import LinearConstraints.Proofs.Redundancy

namespace LinearConstraints

-- ======================================================= rows of dummies

namespace Tableau

variable {t t' : Tableau Rat} {m s art : Symbol} {r d : Row Rat}
  {budget : ℕ}

/-- No row of a dummy mentions the symbol. -/
def Clear (t : Tableau Rat) (m : Symbol) : Prop :=
  ∀ b r, t.rows.get? b = some r → b.isDummy = true → r.coefficient m = 0

theorem DummiesIdle.clear (hd : t.DummiesIdle) (hs : s.isDummy = false) :
    t.Clear s := fun b r hr hb => (hd b r hr hb).2 s hs

namespace Clear

theorem without (h : t.Clear m) (b : Symbol) : (t.without b).Clear m :=
  fun x r hr hx => h x r (get?_of_without hr).2 hx

/-- Installing a symbol that no dummy's row mentions leaves those rows. -/
theorem install (h : t.Clear m) (hs : t.Clear s)
    (hd : s.isDummy = true → d.coefficient m = 0) :
    (t.install s d).Clear m := by
  intro b r hr hb
  rcases row_of_install hr with ⟨rfl, rfl⟩ | ⟨r₀, hr₀, rfl⟩
  · exact hd hb
  · rw [Row.coefficient_substitute, hs b r₀ hr₀ hb, h b r₀ hr₀ hb]
    ring

/-- A pivot on a symbol that is no dummy. -/
theorem exchange (h : t.Clear m) (hidle : t.DummiesIdle)
    (hs : s.isDummy = false) (b : Symbol) :
    ((t.without b).install s d).Clear m :=
  (h.without b).install ((hidle.clear hs).without b) fun hd => by
    rw [hs] at hd
    cases hd

theorem minimise (h : t.Clear m) (hidle : t.DummiesIdle) (budget : ℕ)
    (goal : Goal) : (t.minimise budget goal).state.Clear m := by
  have key : (t.minimise budget goal).state.DummiesIdle
      ∧ (t.minimise budget goal).state.Clear m := by
    refine iterate_state
      (P := fun u : Tableau Rat => u.DummiesIdle ∧ u.Clear m)
      (fun u u' h hstep => ⟨primalStep_dummiesIdle h.1 hstep, ?_⟩)
      (fun u u' res h hstop => ?_) budget ⟨hidle, h⟩
    · obtain ⟨o, s, b, r, d, -, hs, -, -, rfl⟩ := primalStep_eq_next hstep
      exact h.2.exchange h.1 (entering?_spec hs).1 b
    · have heq := (primalStep_eq_stop hstop).1
      exact heq ▸ h
  exact key.2

theorem purge (h : t.Clear m) (x : Symbol) : (t.purge x).Clear m := by
  intro b r' hr' hb
  have hget : (t.purge x).rows.get? b
      = (t.rows.get? b).map fun r => r.discard x := Table.get?_map ..
  rw [hget] at hr'
  obtain ⟨r, hr, rfl⟩ := Option.map_eq_some_iff.1 hr'
  rw [Row.coefficient_discard, h b r hr hb, ite_self]

theorem retire (h : t.Clear m) (hc : t.Canonical)
    (hidle : t.DummiesIdle) (art : Symbol) :
    (t.retire art).state.Clear m := by
  generalize ho : t.retire art = o
  cases retire_eq_iff.1 ho with
  | away => exact h.purge art
  | empty => exact h.without art
  | refused | absent => exact h
  | pivot row _ enters exchange =>
      obtain ⟨-, d, -, -, rfl⟩ := exchange?_eq_some_iff.1 exchange
      have hsd := (firstPivotable?_spec (hc.reduced (.row row)) enters).2
      exact (h.exchange hidle hsd art).purge art

/-- Adjoining a row leaves the rows of the dummies, even if it succeeds. -/
theorem adjoin (h : t.Clear m) (hadj : t.Adjoinable art r)
    (hidle : t.DummiesIdle)
    (hok : (t.adjoin budget art r).result = .ok true) :
    (t.adjoin budget art r).state.Clear m := by
  rw [adjoin_eq_of_ok hok]
  have hart : (t.withArtificial art r).Clear m := by
    intro b r' hr' hb
    rw [get?_rows_withArtificial] at hr'
    split at hr'
    case isTrue hab =>
      rw [← hab, hadj.not_dummy] at hb
      cases hb
    · exact h b r' hr' hb
  have hidle' := dummiesIdle_withArtificial hadj hidle
  have hre := minimise_restates budget .auxiliary
    (canonical_withArtificial hadj)
  have hmin := hart.minimise hidle' budget .auxiliary
  have hidle'' := minimise_dummiesIdle budget .auxiliary hidle'
  generalize ho : t.searchWith budget art r = o
  cases searchWith_eq_iff.1 ho with
  | failed minimised | above minimised =>
      rw [minimised] at hmin
      exact hmin
  | @zero u minimised =>
      rw [minimised] at hre hmin hidle''
      have hdropped : ({ u with auxiliary := none } : Tableau Rat).Clear m :=
        hmin
      exact hdropped.retire (canonical_dropAuxiliary hre.canonical) hidle''
        art

end Clear

end Tableau

namespace Solver

open Function (update)

variable {s s' s₁ : Solver Rat} {goal : ℕ → Rat} {c : Constraint Rat}
  {r : Row Rat} {f : Footprint} {n m budget : ℕ}

-- ============================================================== adding

/-- A row that has entered leaves no dummy's row with the new marker. -/
private theorem clear_enter (hp : s.Poses c r f s₁) (h : s.Consistent goal)
    (hs : s.Settled) (hok : (s₁.enter budget c r f).result = .ok ()) :
    (s₁.enter budget c r f).state.tableau.Clear f.marker := by
  have hclear : s₁.tableau.Clear f.marker := fun b d hd _ =>
    hp.coefficient_of_mentions h.toGrounded (Or.inl rfl) hd
  have hidle : s₁.tableau.DummiesIdle := by
    rw [hp.tableau]
    exact hs.dummiesIdle
  rcases hp.entry_cases h.separated hok with
    ⟨x, d, hne, hd, hdum, heq⟩ | ⟨hadj, hres, heq⟩
  · rw [heq]
    -- The symbol solved for is in no dummy's row, being the marker or
    -- no dummy itself.
    have hx : s₁.tableau.Clear x := by
      cases hxd : x.isDummy with
      | true => exact hdum hxd ▸ hclear
      | false => exact hidle.clear hxd
    refine hclear.install hx fun hxd => ?_
    rw [Row.coefficient_of_isolate? hne hd, if_pos (hdum hxd)]
  · rw [heq]
    exact hclear.adjoin hadj hidle hres

/-- Just after a constraint has been registered, no dummy's row mentions
its marker. -/
theorem Consistent.detached_of_register (h : s.Consistent goal)
    (hs : s.Settled) (hnew : s.contains c = false)
    (hok : (s.register n c).result = .ok f) :
    (s.register n c).state.Detached ⟨c, f⟩ := by
  intro _
  have hp := poses_equation h.toGrounded c
  generalize hq : s.equation c = q at hp
  obtain ⟨r, f', s₁⟩ := q
  dsimp only at hp
  rw [register_eq hnew hq] at hok ⊢
  cases hent : (s₁.enter n c r f').result with
  | error e =>
      unfold Outcome.andThen at hok
      rw [hent] at hok
      cases hok
  | ok u =>
      rw [Outcome.andThen_of_ok hent] at hok ⊢
      rw [Outcome.state_andThen_ok]
      obtain ⟨-, -, rfl⟩ := Outcome.ok_of_andThen_ok hok
      have hidle : s₁.tableau.DummiesIdle := by
        rw [hp.tableau]
        exact hs.dummiesIdle
      exact (clear_enter hp h hs hent).minimise
        ((hp.enters_of_ok h hent).dummiesIdle hidle) n .main

/-- The way to a constraint and back leads to the same constraints and
edits, and to a settled solver. -/
theorem Consistent.remove_add (h : s.Consistent goal) (hs : s.Settled)
    (hweight : 0 ≤ c.strength.value) (hnew : s.contains c = false)
    (hadd : (s.add n c).result = .ok ())
    (hremove : ((s.add n c).state.remove m c).result = .ok ()) :
    ((s.add n c).state.remove m c).state.registry = s.registry
      ∧ ((s.add n c).state.remove m c).state.edits = s.edits
      ∧ ((s.add n c).state.remove m c).state.Consistent
          (update goal c.id 0)
      ∧ ((s.add n c).state.remove m c).state.Settled := by
  obtain ⟨f, hf, -⟩ := Outcome.ok_of_andThen_ok hadd
  have hstate : (s.add n c).state = (s.register n c).state :=
    Outcome.state_andThen_ok ..
  have hreg := h.registered_of_ok hweight hf
  have hdetached := h.detached_of_register hs hnew hf
  rw [hstate] at hremove ⊢
  have hfound : (s.register n c).state.registry.get? c.id
      = some ⟨c, f⟩ := by
    rw [hreg.registry, Table.get?_insert, if_pos rfl]
  have hrem := hreg.consistent.removed_of_ok hfound hremove
  refine ⟨?_, hrem.edits.trans hreg.edits, hrem.consistent,
    hrem.settled (hreg.settled hs) hdetached⟩
  rw [hrem.registry, hreg.registry, Table.erase_insert]
  rw [← Table.contains_iff]
  exact Bool.eq_false_iff.1 hnew

-- ============================================================ sliders

/-- Compares the slider with a number. -/
def limit (id : ℕ) (r : Relation) (value : Rat) (strength : Strength Rat) :
    Constraint Rat :=
  .new id ((Expression.ofVariable slider).minus (.ofConstant value)) r
    strength

/-- The constraint can be added and then taken out, which takes the slider
from one value to another. -/
def Moves (s : Solver Rat) (c : Constraint Rat) (before after : Rat) : Prop
    :=
  s.contains c = false
    ∧ (s.add 10 c).result = .ok ()
    ∧ ((s.add 10 c).state.remove 10 c).result = .ok ()
    ∧ s.refresh.value slider = before
    ∧ ((s.add 10 c).state.remove 10 c).state.refresh.value slider = after

private theorem valueUnder_limit (id : ℕ) (r : Relation) (value : Rat)
    (strength : Strength Rat) (f : Variable → Rat) :
    (limit id r value strength).expression.valueUnder f
      = f slider - value := by
  show (0 + value * -1) + (0 + 1) * f slider = _
  ring

private theorem valueUnder_edit (id : ℕ) (x : Variable)
    (strength : Strength Rat) (f : Variable → Rat) :
    (EditConstraint.new id x strength).constraint.expression.valueUnder f
      = f x := by
  show 0 + (0 + 1) * f x = f x
  ring

/-- The slider that has been pulled past its end is kept from exceeding
it. -/
private theorem pulledSlider_le_ten {f : Variable → Rat}
    (h : pulledSlider.Admits f) : f slider ≤ 10 := by
  have hmem : limit 1 .lessOrEqual 10 .required
      ∈ pulledSlider.constraints := by
    have hget : pulledSlider.constraints[1]?
        = some (limit 1 .lessOrEqual 10 .required) := by
      with_unfolding_all rfl
    exact List.mem_of_getElem? hget
  have htarget : pulledSlider.target (limit 1 .lessOrEqual 10 .required)
      = 0 := by decide +kernel
  have hholds : pulledSlider.excess f (limit 1 .lessOrEqual 10 .required)
      ≤ 0 := h _ hmem (by decide +kernel)
  unfold excess at hholds
  rw [valueUnder_limit, htarget] at hholds
  linarith

/-- Only the distance from where it has been pulled to costs anything. -/
private theorem cost_pulledSlider (f : Variable → Rat) :
    pulledSlider.cost f
      = 1000000 * Relation.equal.violation (f slider - 12) := by
  have hsoft : pulledSlider.constraints.filter
      (fun c => !c.strength.isRequired)
      = [(EditConstraint.new 3 slider .strong).constraint] := by
    with_unfolding_all rfl
  have htarget : pulledSlider.target
      (EditConstraint.new 3 slider .strong).constraint = 12 := by
    decide +kernel
  have hweight : (EditConstraint.new (α := Rat) 3 slider
      .strong).constraint.strength.value = 1000000 := by decide +kernel
  unfold cost excess
  rw [hsoft, List.map_singleton, List.sum_singleton, valueUnder_edit,
    htarget, hweight]
  rfl

/-- The slider has one best place, which is its end. -/
private theorem pulledSlider_eq_ten {f : Variable → Rat}
    (h : pulledSlider.IsOptimal f) : f slider = 10 := by
  have hend := pulledSlider_le_ten h.1
  have hten : pulledSlider.Admits fun _ => 10 := by
    unfold Admits
    decide +kernel
  have hle := h.2 _ hten
  rw [cost_pulledSlider, cost_pulledSlider] at hle
  unfold Relation.violation at hle
  dsimp only at hle
  rw [if_pos (by linarith), if_pos (by norm_num)] at hle
  linarith

-- ========================================================= round trips

/-- What is optimal depends on the constraints and the edits only. -/
theorem isOptimal_congr (hr : s'.registry = s.registry)
    (he : s'.edits = s.edits) (value : Variable → Rat) :
    s'.IsOptimal value ↔ s.IsOptimal value := by
  unfold IsOptimal Admits cost excess target constraints
  rw [hr, he]

/-- Adding a constraint and taking it out again, both with success, leads
back to the same constraints and edits and to an optimum, so to one that
costs as much as the one before; and a variable on which all optimal
valuations agree has its value again. Where the values had just been copied
those of `s.refresh` are the values before (`value_refresh_refresh`). -/
theorem Reachable.roundTrip
    (h : Reachable
      (fun s c => Command.Built c ∧ s.Spares c ∧ s.KeepsEdits c) s)
    (hc : c.Built) (hnew : s.contains c = false)
    (hadd : (s.add n c).result = .ok ())
    (hremove : ((s.add n c).state.remove m c).result = .ok ()) :
    ((s.add n c).state.remove m c).state.registry = s.registry
      ∧ ((s.add n c).state.remove m c).state.edits = s.edits
      ∧ s.IsOptimal s.refresh.value
      ∧ s.IsOptimal ((s.add n c).state.remove m c).state.refresh.value
      ∧ ∀ v, (∀ f g, s.IsOptimal f → s.IsOptimal g → f v = g v) →
          ((s.add n c).state.remove m c).state.refresh.value v
            = s.refresh.value v := by
  obtain ⟨goal, hcons, hset, hcoh⟩ := h.settled_coherent
  obtain ⟨hregistry, hedits, hcons', hset'⟩ :=
    hcons.remove_add hset hc.weight hnew hadd hremove
  have hcoh' := (hcoh.update_goal (get?_of_not_contains hnew) 0).congr
    hregistry hedits
  have hbefore : s.IsOptimal s.refresh.value := by
    rw [value_refresh]
    exact hcoh.isOptimal_read hcons hset
  have hafter : s.IsOptimal
      ((s.add n c).state.remove m c).state.refresh.value := by
    rw [← isOptimal_congr hregistry hedits, value_refresh]
    exact hcoh'.isOptimal_read hcons' hset'
  exact ⟨hregistry, hedits, hbefore, hafter,
    fun v hv => hv _ _ hafter hbefore⟩

/-- Held at five for a while, the slider is back at its end. -/
theorem pulledSlider_roundTrip :
    Reachable (fun s c => Command.Built c ∧ s.Spares c ∧ s.KeepsEdits c)
        pulledSlider
      ∧ (pulledSlider.add 10 (limit 4 .lessOrEqual 5 .required)
          ).state.refresh.value slider = 5
      ∧ Moves pulledSlider (limit 4 .lessOrEqual 5 .required) 10 10 := by
  have hreach := reachable_pulledSlider
  have hnew : pulledSlider.contains (limit 4 .lessOrEqual 5 .required)
      = false := by decide +kernel
  have hadd : (pulledSlider.add 10 (limit 4 .lessOrEqual 5
      .required)).result = .ok () :=
    Outcome.result_eq_ok (by decide +kernel)
  have hremove : ((pulledSlider.add 10 (limit 4 .lessOrEqual 5
      .required)).state.remove 10 (limit 4 .lessOrEqual 5
      .required)).result = .ok () :=
    Outcome.result_eq_ok (by decide +kernel)
  obtain ⟨-, -, hbefore, -, hback⟩ :=
    Reachable.roundTrip hreach (.new ..) hnew hadd hremove
  have hten := pulledSlider_eq_ten hbefore
  have hone : ∀ f g, pulledSlider.IsOptimal f → pulledSlider.IsOptimal g →
      f slider = g slider := fun f g hf hg => by
    rw [pulledSlider_eq_ten hf, pulledSlider_eq_ten hg]
  exact ⟨hreach, by decide +kernel, hnew, hadd, hremove, hten,
    (hback slider hone).trans hten⟩

-- ====================================================== not restored

/-- Keeps the slider between one and three, and prefers no place. -/
def looseRun : List (Command Rat) :=
  [.add (limit 0 .lessOrEqual 3 .required),
    .add (limit 1 .greaterOrEqual 1 .required), .refresh]

/-- The slider that the run ends with. -/
def looseSlider : Solver Rat := (Solver.empty.run 10 looseRun).1

/-- Takes one of two equal pins out, and with it the other's hold. -/
def unpinningRun : List (Command Rat) :=
  pinningRun ++ [.remove (pin 0), .refresh]

/-- The slider that the run ends with. -/
def unpinnedSlider : Solver Rat := (Solver.empty.run 10 unpinningRun).1

/-- Suggests two for the slider, where a constraint wants it as well, and
takes the constraint of the edit out and adds it again. -/
def retyingRun : List (Command Rat) :=
  [.add (limit 1 .equal 2 .strong), .addEdit 0 slider .strong,
    .suggest slider 2, .remove sliderTie, .add sliderTie, .refresh]

/-- The slider that the run ends with. -/
def untiedSlider : Solver Rat := (Solver.empty.run 10 retyingRun).1

theorem reachable_looseSlider :
    Reachable (fun s c => Command.Built c ∧ s.Spares c ∧ s.KeepsEdits c)
      looseSlider := by
  have hbuilt : ∀ c ∈ looseRun, c.Built := by
    simp only [looseRun, List.forall_mem_cons, List.not_mem_nil,
      false_imp_iff, implies_true, and_true, Command.Built]
    exact ⟨.new .., .new ..⟩
  have hfollows : Follows (fun s c => s.Spares c ∧ s.KeepsEdits c) 10
      .empty looseRun := by decide +kernel
  exact .run (fun _ c hc hg => ⟨hbuilt c hc, hg⟩) .empty hfollows

theorem reachable_unpinnedSlider :
    Reachable (fun s c => Command.Built c ∧ s.KeepsEdits c)
      unpinnedSlider := by
  have hbuilt : ∀ c ∈ unpinningRun, c.Built := by
    simp only [unpinningRun, pinningRun, List.cons_append, List.nil_append,
      List.forall_mem_cons, List.not_mem_nil, false_imp_iff, implies_true,
      and_true, Command.Built]
    exact ⟨.new .., .new .., .new ..⟩
  have hfollows : Follows KeepsEdits 10 .empty unpinningRun := by
    decide +kernel
  exact .run (fun _ c hc hg => ⟨hbuilt c hc, hg⟩) .empty hfollows

theorem reachable_untiedSlider :
    Reachable (fun s c => Command.Built c ∧ s.Spares c) untiedSlider := by
  have hbuilt : ∀ c ∈ retyingRun, c.Built := by
    simp only [retyingRun, List.forall_mem_cons, List.not_mem_nil,
      false_imp_iff, implies_true, true_and, and_true, Command.Built]
    exact ⟨.new .., .new ..⟩
  have hfollows : Follows Spares 10 .empty retyingRun := by decide +kernel
  exact .run (fun _ c hc hg => ⟨hbuilt c hc, hg⟩) .empty hfollows

/-- A slider that may be anywhere in its range is left at another place;
one whose second pin has lost its hold is at a place where it may not be,
until the way to the constraint and back pins it again; and one whose
constraint has been added again behind the back of its edit is left at a
place that is not the best. -/
theorem values_not_restored :
    (Reachable (fun s c => Command.Built c ∧ s.Spares c ∧ s.KeepsEdits c)
        looseSlider
      ∧ Moves looseSlider (limit 2 .lessOrEqual 2 .weak) 3 1)
    ∧ (Reachable (fun s c => Command.Built c ∧ s.KeepsEdits c)
        unpinnedSlider
      ∧ Moves unpinnedSlider (limit 3 .greaterOrEqual 2 .required) 0 4
      ∧ ¬ unpinnedSlider.IsOptimal unpinnedSlider.refresh.value)
    ∧ Reachable (fun s c => Command.Built c ∧ s.Spares c) untiedSlider
      ∧ Moves untiedSlider (limit 2 .lessOrEqual 1 .weak) 2 0
      ∧ ¬ untiedSlider.IsOptimal fun _ => 0 := by
  refine ⟨⟨reachable_looseSlider, ?_⟩,
    ⟨reachable_unpinnedSlider, ?_, fun h => ?_⟩,
    reachable_untiedSlider, ?_, fun h => ?_⟩
  · exact ⟨by decide +kernel, Outcome.result_eq_ok (by decide +kernel),
      Outcome.result_eq_ok (by decide +kernel), by decide +kernel,
      by decide +kernel⟩
  · exact ⟨by decide +kernel, Outcome.result_eq_ok (by decide +kernel),
      Outcome.result_eq_ok (by decide +kernel), by decide +kernel,
      by decide +kernel⟩
  · have hnot : ¬ unpinnedSlider.Admits unpinnedSlider.refresh.value := by
      unfold Admits
      decide +kernel
    exact hnot h.1
  · exact ⟨by decide +kernel, Outcome.result_eq_ok (by decide +kernel),
      Outcome.result_eq_ok (by decide +kernel), by decide +kernel,
      by decide +kernel⟩
  · have htwo : untiedSlider.Admits fun _ => 2 := by
      unfold Admits
      decide +kernel
    have hless : untiedSlider.cost (fun _ => 2)
        < untiedSlider.cost fun _ => 0 := by decide +kernel
    exact absurd (h.2 _ htwo) (not_le.2 hless)

end Solver

end LinearConstraints
