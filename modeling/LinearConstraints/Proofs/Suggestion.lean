/-
Suggestion: what moving the value of an edit variable comes to.

The edit constraint has two errors, and its target moves by what the
suggestion differs from the one before. So the goal of the registered
constraint that has these errors moves with it, and no other goal does;
the errors of a constraint that has been removed are nobody's any more,
and then nothing moves. The objective keeps its coefficients and is off
by a constant at most.

Main statement: `suggest_cases`: the outcomes of a suggestion, and what
the solver is afterwards.
-/
import LinearConstraints.Proofs.Consistent
import LinearConstraints.Proofs.Registration
import LinearConstraints.Proofs.Retarget
import LinearConstraints.Solver.Edits

namespace LinearConstraints.Solver

open Function (update)

variable {s s' : Solver Rat} {goal : Nat → Rat} {f : Footprint} {k : Rat}

/-- The goals after the target of the edit with a footprint has moved. -/
def movedGoal (s : Solver Rat) (f : Footprint) (k : Rat)
    (goal : Nat → Rat) (i : Nat) : Rat :=
  match s.registry.get? i with
  | some g => if g.footprint = f then goal i + k else goal i
  | none => goal i

theorem movedGoal_of_get? {i : Nat} {g : Registration Rat}
    (hi : s.registry.get? i = some g) :
    s.movedGoal f k goal i
      = if g.footprint = f then goal i + k else goal i := by
  unfold movedGoal
  rw [hi]

-- ======================================================== the symbols

/-- The symbol at which the solutions move, and by how much: the marker by
the step, or the companion by its opposite. -/
def MovesAt (f : Footprint) (k : Rat) (x : Symbol) (a : Rat) : Prop :=
  x = f.marker ∧ a = k ∨ f.companion = some x ∧ a = -k

namespace Tracks

variable {x : Symbol} {a : Rat}

theorem kind (h : s.Tracks f) (hx : f.Mentions x) : x.kind = .error := by
  obtain ⟨y, hy, hkind⟩ := h.companion
  rcases hx with rfl | hx
  · exact h.marker
  · rw [hy] at hx
    exact Option.some.inj hx ▸ hkind

theorem not_external (h : s.Tracks f) (hx : f.Mentions x) :
    x.isExternal = false :=
  Symbol.isExternal_of_kind (h.kind hx) (by decide)

theorem not_dummy (h : s.Tracks f) (hx : f.Mentions x) :
    x.isDummy = false :=
  Symbol.isDummy_of_kind (h.kind hx) (by decide)

/-- No other registered constraint has a symbol of the edit. -/
theorem not_mentions (h : s.Tracks f) (ho : s.Orderly) {i : Nat}
    {g : Registration Rat} (hi : s.registry.get? i = some g)
    (hne : g.footprint ≠ f) (hx : f.Mentions x) :
    ¬ g.footprint.Mentions x := by
  rcases h.owner with ⟨j, g', hj, rfl⟩ | hfree
  · intro hm
    have hij := ho.disjoint hi hj hm hx
    subst hij
    exact hne (congrArg _ (Option.some.inj (hi.symm.trans hj)))
  · exact hfree hx i g hi

/-- The registered constraint that has the symbols of the edit is an
equality that may be violated. -/
theorem sign (h : s.Tracks f) (ho : s.Orderly) {i : Nat}
    {g : Registration Rat} (hi : s.registry.get? i = some g)
    (hf : g.footprint = f) :
    g.constraint.sign = -1 ∧ g.constraint.strength.isRequired = false := by
  have hm : g.footprint.marker.kind = .error := by
    rw [hf]
    exact h.marker
  cases (ho.registered hi).fits with
  | dummy _ _ marker => rw [marker] at hm; cases hm
  | slack _ _ marker => rw [marker] at hm; cases hm
  | errors y relation optional =>
      refine ⟨?_, optional⟩
      unfold Constraint.sign
      rw [relation, optional]
      rfl
  | slackened y _ _ marker => rw [marker] at hm; cases hm

theorem mentions_of_movesAt (h : MovesAt f k x a) : f.Mentions x := by
  rcases h with ⟨hx, -⟩ | ⟨hx, -⟩
  · exact Or.inl hx
  · exact Or.inr hx

/-- Where the solutions move, the gap of the edit moves by the step. -/
theorem gap_update (h : s.Tracks f) (hx : MovesAt f k x a)
    (v : Symbol → Rat) : f.gap (update v x (v x + a)) = f.gap v + k := by
  rw [Footprint.gap_update]
  rcases hx with ⟨rfl, rfl⟩ | ⟨hx, rfl⟩
  · rw [Footprint.gap_unit_marker h.apart, mul_one]
  · rw [Footprint.gap_unit_companion hx h.apart]
    ring

/-- The solutions move so that every constraint is balanced at its moved
goal. -/
theorem balances_update (h : s.Tracks f) (ho : s.Orderly)
    (hx : MovesAt f k x a) (v : Symbol → Rat) :
    s.Balances goal (update v x (v x + a))
      ↔ s.Balances (s.movedGoal f k goal) v := by
  have hm := mentions_of_movesAt hx
  unfold Balances
  refine forall_congr' fun i => forall_congr' fun g =>
    forall_congr' fun hi => ?_
  rw [movedGoal_of_get? hi]
  unfold Registration.Balanced
  rw [read_update ho.wellBound (h.not_external hm)]
  by_cases hf : g.footprint = f
  · obtain ⟨hsign, -⟩ := h.sign ho hi hf
    rw [if_pos hf, hf, h.gap_update hx, hsign]
    constructor
    · intro he
      linarith
    · intro he
      linarith
  · have hgap : g.footprint.gap (update v x (v x + a))
        = g.footprint.gap v := by
      rw [Footprint.gap_update,
        Footprint.gap_unit_of_not_mentions (h.not_mentions ho hi hf hm),
        mul_zero, add_zero]
    rw [if_neg hf, hgap]

/-- Moving both symbols together moves no gap. -/
theorem balances_update_pair (h : s.Tracks f) (ho : s.Orderly)
    {y : Symbol} (hy : f.companion = some y) {v : Symbol → Rat}
    (hb : s.Balances goal v) (a : Rat) :
    s.Balances goal
      (update (update v f.marker (v f.marker + a)) y (v y + a)) := by
  have hne : y ≠ f.marker := by
    intro heq
    subst heq
    exact h.apart hy
  have hcompanion : MovesAt f (-a) y a := Or.inr ⟨hy, (neg_neg a).symm⟩
  -- the companion moves second
  have hstep := fun hb : s.Balances (s.movedGoal f (-a) goal)
      (update v f.marker (v f.marker + a)) =>
    (h.balances_update ho hcompanion _).2 hb
  rw [Function.update_of_ne hne] at hstep
  refine hstep ((h.balances_update ho (Or.inl ⟨rfl, rfl⟩) v).2 ?_)
  -- the two moves cancel
  intro i g hi
  have hgoal : s.movedGoal f a (s.movedGoal f (-a) goal) i = goal i := by
    rw [movedGoal_of_get? hi, movedGoal_of_get? hi]
    split
    · ring
    · rfl
  rw [hgoal]
  exact hb i g hi

end Tracks

-- =========================================================== the move

/-- The penalty moves by a constant where the solutions move. -/
theorem penalty_update (s : Solver Rat) (v : Symbol → Rat) (x : Symbol)
    (a : Rat) :
    s.penalty (update v x (v x + a))
      = s.penalty v + s.penalty (Row.unit x) * a := by
  unfold penalty
  rw [← Table.sum_mul, ← Table.sum_add]
  refine Table.sum_congr fun i g _ => ?_
  unfold Registration.penalty
  rw [Footprint.errors_update]
  ring

/-- Where the solutions move, the objective is off by what the symbol would
have cost. -/
theorem Owes.shift {rest : Row Rat} (h : s.Owes rest) {x : Symbol}
    {a : Rat} {t : Tableau Rat} (hs : s.tableau.Shifts x a t) :
    (s.withTableau t).Owes
      (rest.shift (s.penalty (Row.unit x) * a + rest.coefficient x * a
        - s.tableau.objective.coefficient x * a)) := by
  intro v hv
  have hu := h _ ((hs.solves v).1 hv)
  rw [Row.value_update, Row.value_update, penalty_update,
    add_sub_cancel_left] at hu
  show t.objective.value v = s.penalty v + _
  rw [hs.objective, Row.value_shift]
  linarith

/-- A tableau whose solutions have moved keeps the solver consistent, with
the goal of the edit moved. -/
theorem Consistent.shift (h : s.Consistent goal) (ht : s.Tracks f)
    {x : Symbol} {a : Rat} (hx : MovesAt f k x a) {t : Tableau Rat}
    (hs : s.tableau.Shifts x a t) :
    (s.withTableau t).Consistent (s.movedGoal f k goal) where
  canonical := hs.canonical h.canonical
  fresh := fun hid => hs.unused (h.fresh hid)
  wellBound := ⟨h.wellBound.external, h.wellBound.below,
    h.wellBound.injective⟩
  registered := fun hi => (h.registered hi).mono (le_refl _) id
  disjoint := h.disjoint
  separated := hs.separated h.separated
  auxiliary := hs.auxiliary.trans h.auxiliary
  required := by
    intro i g hi hreq
    have hi : s.registry.get? i = some g := hi
    rw [movedGoal_of_get? hi, if_neg, h.required hi hreq]
    intro hf
    rw [(ht.sign h.toOrderly hi hf).2] at hreq
    cases hreq
  solves := by
    intro v
    show t.Solves v ↔ s.Balances _ v
    rw [hs.solves, h.solves, ht.balances_update h.toOrderly hx]
  objective := by
    obtain ⟨rest, hrest, hobj⟩ := h.objective
    exact ⟨_, hrest.shift _, Owes.shift hobj hs⟩
  edits := fun he => (h.edits he).mono (le_refl _) Or.inl fun _ hx => hx

/-- Moving the target of an edit moves the solutions at one of its
symbols. -/
theorem Tracks.shifts (ht : s.Tracks f) (hc : s.tableau.Canonical)
    (k : Rat) : ∃ x a, MovesAt f k x a
      ∧ s.tableau.Shifts x a (s.tableau.moveTarget f k) := by
  rcases Tableau.shifts_of_moveTarget hc (ht.not_external (Or.inl rfl))
    (fun x hx => ht.not_external (Or.inr hx)) k with hs | ⟨x, hx, hs⟩
  · exact ⟨f.marker, k, Or.inl ⟨rfl, rfl⟩, hs⟩
  · exact ⟨x, -k, Or.inr ⟨hx, rfl⟩, hs⟩

/-- In a settled solver a proper valuation still solves the tableau after
the move. -/
theorem Consistent.exists_proper (h : s.Consistent goal) (ht : s.Tracks f)
    (hs : s.Settled) (k : Rat) :
    ∃ w, (s.tableau.moveTarget f k).Solves w ∧ Tableau.Proper w := by
  obtain ⟨y, hy, -⟩ := ht.companion
  have hne : f.marker ≠ y := by
    intro heq
    subst heq
    exact ht.apart hy
  obtain ⟨x, a, hx, hshift⟩ := ht.shifts h.canonical k
  have hmove : s.tableau.Shifts f.marker k (s.tableau.moveTarget f k)
      ∨ s.tableau.Shifts y (-k) (s.tableau.moveTarget f k) := by
    rcases hx with ⟨rfl, rfl⟩ | ⟨hx, rfl⟩
    · exact Or.inl hshift
    · obtain rfl := Option.some.inj (hy.symm.trans hx)
      exact Or.inr hshift
  refine Tableau.exists_proper_of_moveTarget hne (ht.not_dummy (Or.inl rfl))
    (ht.not_dummy (Or.inr hy)) (fun v a hv => ?_) hmove
    h.canonical.solves_solution
    (Tableau.proper_solution hs.feasible hs.dummiesIdle)
  exact (h.solves _).2
    (ht.balances_update_pair h.toOrderly hy ((h.solves v).1 hv) a)

-- ============================================================ outcomes

/-- The solver with the record of an edit replaced. -/
def withEdit (s : Solver Rat) (x : Variable) (e : Edit Rat) : Solver Rat :=
  { s with edits := s.edits.insert x e }

/-- Replacing the record of an edit keeps the solver consistent. -/
theorem Consistent.withEdit (h : s.Consistent goal) (x : Variable)
    {e : Edit Rat} (ht : s.Tracks e.footprint) :
    (s.withEdit x e).Consistent goal where
  canonical := h.canonical
  fresh := h.fresh
  wellBound := ⟨h.wellBound.external, h.wellBound.below,
    h.wellBound.injective⟩
  registered := fun hi => (h.registered hi).mono (le_refl _) id
  disjoint := h.disjoint
  separated := h.separated
  auxiliary := h.auxiliary
  required := h.required
  solves := h.solves
  objective := h.objective
  edits := by
    intro x' e' he
    have he : (s.edits.insert x e).get? x' = some e' := he
    rw [Table.get?_insert] at he
    split at he
    · obtain rfl := Option.some.inj he
      exact ht.mono (le_refl _) Or.inl fun _ hx => hx
    · exact (h.edits he).mono (le_refl _) Or.inl fun _ hx => hx

/-- The value of an edit variable was suggested: its record has the new
value, and its goal has moved. -/
structure Suggested (s : Solver Rat) (x : Variable) (e : Edit Rat)
    (value : Rat) (s' : Solver Rat) (goal : Nat → Rat) : Prop where
  registry : s'.registry = s.registry
  edits : s'.edits = s.edits.insert x
    { e with constraint := e.constraint.suggest value }
  consistent : s'.Consistent
    (s.movedGoal e.footprint (value - e.constraint.target) goal)

/-- The outcomes of a suggestion. -/
theorem suggest_cases (h : s.Consistent goal) (x : Variable) (value : Rat)
    (budget : Nat) :
    (s.edits.get? x = none
        ∧ s.suggest budget x value = .error s (.unknownEdit x))
      ∨ ∃ e, s.edits.get? x = some e
        ∧ s.Suggested x e value (s.suggest budget x value).state goal
        ∧ ((s.suggest budget x value).result = .ok ()
              ∧ (s.Settled → (s.suggest budget x value).state.Settled)
            ∨ (s.suggest budget x value).result
                = .error (.failure .noDualEnteringSymbol) ∧ ¬ s.Settled
            ∨ ∃ err, (s.suggest budget x value).result = .error err
                ∧ err.isFatal = true) := by
  unfold suggest
  cases he : s.edits.get? x with
  | none => exact Or.inl ⟨rfl, rfl⟩
  | some e =>
      have ht := h.edits he
      refine Or.inr ⟨e, rfl, ?_⟩
      dsimp only
      generalize hk : value - e.constraint.target = k
      generalize he' : ({ e with constraint := e.constraint.suggest value } :
        Edit Rat) = e'
      obtain ⟨z, a, hz, hshift⟩ := ht.shifts h.canonical k
      have hcan := hshift.canonical h.canonical
      have hsep := hshift.separated h.separated
      have hcons := ((h.shift ht hz hshift).restate
        (Tableau.restore_restates budget hcan hsep)).withEdit x (e := e')
        (by rw [← he']; exact ht.mono (le_refl _) Or.inl fun _ hx => hx)
      refine ⟨⟨rfl, by rw [← he']; rfl, by rw [hk]; exact hcons⟩, ?_⟩
      cases hres : ((s.tableau.moveTarget e.footprint k).restore
          budget).result with
      | ok u =>
          refine Or.inl ⟨?_, fun hs => ?_⟩
          · unfold onTableau
            dsimp only
            rw [hres]
            rfl
          · have hdum := ht.not_dummy (Tracks.mentions_of_movesAt hz)
            exact ⟨Tableau.feasible_of_restore hcan hsep
                (hshift.pending hs.feasible) hres,
              Tableau.restore_dummiesIdle budget
                (hshift.dummiesIdle hdum hs.dummiesIdle),
              Tableau.restore_lowest budget hcan hsep
                (hshift.objective ▸ hs.lowest)⟩
      | error err =>
          have herr : ((s.withEdit x e').onTableau
              ((s.tableau.moveTarget e.footprint k).restore budget)).result
              = .error (.failure err) := by
            unfold onTableau
            dsimp only
            rw [hres]
            rfl
          rcases Tableau.error_of_restore hres with rfl | hfatal
          · refine Or.inr (Or.inl ⟨herr, fun hs => ?_⟩)
            obtain ⟨w, hw, hp⟩ := h.exists_proper ht hs k
            exact Tableau.restore_ne_noDual hcan hsep hw hp hres
          · exact Or.inr (Or.inr ⟨_, herr, isFatal_failure hfatal⟩)

end LinearConstraints.Solver
