/-
Withdrawal: what removing a constraint comes to.

The weight of the constraint is taken out of the objective, and its marker
is eliminated from the tableau. Since the marker occurs in no other
constraint, what is left to balance are the others: whatever they need,
the marker can take up what the removed one would have needed.

# The marker occurs

If no row mentioned the marker, it could take any value, but the equation
of its own constraint fixes it by the other symbols. So a row for it is
always found.

Main statement: `remove_cases`: the outcomes of removal, and what the
solver is afterwards in each of them.
-/
import LinearConstraints.Proofs.Elimination
import LinearConstraints.Proofs.Registration

namespace LinearConstraints.Solver

open Function (update)

variable {s s' : Solver Rat} {goal : Nat → Rat} {i : Nat}
  {g : Registration Rat}

-- ========================================================== forgiveness

/-- The solver without a registration. -/
def withoutRegistration (s : Solver Rat) (i : Nat) : Solver Rat :=
  { s with registry := s.registry.erase i }

theorem get?_of_withoutRegistration {j : Nat} {g : Registration Rat}
    (h : (s.withoutRegistration i).registry.get? j = some g) :
    i ≠ j ∧ s.registry.get? j = some g := by
  have h : (s.registry.erase i).get? j = some g := h
  rw [Table.get?_erase] at h
  split at h
  · cases h
  case isFalse hij => exact ⟨hij, h⟩

theorem get?_withoutRegistration {j : Nat} {g : Registration Rat}
    (hij : i ≠ j) (hj : s.registry.get? j = some g) :
    (s.withoutRegistration i).registry.get? j = some g := by
  show (s.registry.erase i).get? j = some g
  rw [Table.get?_erase, if_neg hij, hj]

/-- Symbols that belong to no constraint still belong to none. -/
theorem Free.withoutRegistration {x : Symbol} (h : s.Free x) (i : Nat) :
    (s.withoutRegistration i).Free x :=
  fun j g hj => h j g (get?_of_withoutRegistration hj).2

/-- The symbols of the constraint belong to none any more. -/
theorem Orderly.free_withoutRegistration (h : s.Orderly)
    (hi : s.registry.get? i = some g) {x : Symbol}
    (hx : g.footprint.Mentions x) : (s.withoutRegistration i).Free x := by
  intro j g' hj hm
  obtain ⟨hij, hj⟩ := get?_of_withoutRegistration hj
  exact hij (h.disjoint hi hj hx hm)

theorem penalty_withoutRegistration (hi : s.registry.get? i = some g)
    (v : Symbol → Rat) :
    (s.withoutRegistration i).penalty v + g.penalty v = s.penalty v := by
  have h := s.registry.sum_erase i fun _ g => g.penalty v
  rw [hi] at h
  exact h

/-- Forgiving a constraint changes the objective alone. -/
theorem forgive_eq (s : Solver Rat) (g : Registration Rat) :
    s.forgive g = s.withTableau
      (s.tableau.withObjective (s.forgive g).tableau.objective) := by
  unfold forgive
  split <;> rfl

/-- What forgiving takes out of the objective. -/
theorem value_objective_forgive {v : Symbol → Rat}
    (hv : s.tableau.Solves v) (g : Registration Rat) :
    (s.forgive g).tableau.objective.value v
      = s.tableau.objective.value v
        - g.constraint.strength.value * g.footprint.error?.elim 0 v := by
  unfold forgive
  cases g.footprint.error? with
  | none => rw [Option.elim_none, mul_zero, sub_zero]
  | some x =>
      show (s.tableau.addSymbol s.tableau.objective x _).value v = _
      rw [Tableau.value_addSymbol hv, Option.elim_some]
      ring

/-- The errors are what is taken out of the objective and, for an equality
that is not required, the companion. -/
theorem errors_eq_error?_add {c : Constraint Rat} {f : Footprint}
    (h : c.Fits f) (v : Symbol → Rat) :
    f.errors v = f.error?.elim 0 v
      + if c.relation = .equal then f.companion.elim 0 v else 0 := by
  unfold Footprint.errors Footprint.error?
  cases h with
  | dummy relation _ marker companion =>
      rw [Symbol.not_isError_of_kind marker (by decide), companion,
        if_pos relation]
      rfl
  | slack relation _ marker companion =>
      rw [Symbol.not_isError_of_kind marker (by decide), companion,
        if_neg relation]
      rfl
  | errors y relation _ marker companion kind =>
      rw [Symbol.isError_of_kind marker, companion, if_pos relation]
      rfl
  | slackened y relation _ marker companion kind =>
      rw [Symbol.not_isError_of_kind marker (by decide), companion,
        Option.filter_some, if_pos (Symbol.isError_of_kind kind),
        if_neg relation]
      show 0 + v y = v y + 0
      ring

theorem value_leaves (g : Registration Rat) (rest : Row Rat)
    (v : Symbol → Rat) :
    (g.leaves rest).value v = rest.value v + g.constraint.strength.value
      * if g.constraint.relation = .equal then
          g.footprint.companion.elim 0 v else 0 := by
  unfold Registration.leaves
  split
  · cases g.footprint.companion with
    | none => simp
    | some y => simp [Row.value_addCell]
  · simp

theorem reduced_leaves {rest : Row Rat} (h : rest.Reduced)
    (g : Registration Rat) : (g.leaves rest).Reduced := by
  unfold Registration.leaves
  split
  · cases g.footprint.companion with
    | none => exact h
    | some y => exact h.addCell y _
  · exact h

/-- A constraint leaves nothing behind but its companion. -/
theorem coefficient_leaves_of_ne {x : Symbol}
    (hx : g.footprint.companion ≠ some x) (rest : Row Rat) :
    (g.leaves rest).coefficient x = rest.coefficient x := by
  unfold Registration.leaves
  split
  · cases hc : g.footprint.companion with
    | none => rfl
    | some y =>
        have hyx : y ≠ x := fun heq => hx (heq ▸ hc)
        rw [Option.elim_some, Row.coefficient_addCell, Row.unit_of_ne hyx,
          mul_zero, add_zero]
  · rfl

/-- Nothing is left over in the symbols of a registered constraint. -/
theorem Leftover.coefficient_eq_zero {rest : Row Rat}
    (h : s.Leftover rest) (hi : s.registry.get? i = some g) {x : Symbol}
    (hx : g.footprint.Mentions x) : rest.coefficient x = 0 := by
  by_contra h0
  exact (h x h0).2.2.2 i g hi hx

/-- Of its own symbols an equality leaves the companion behind, and any
other constraint none. -/
theorem Leftover.coefficient_leaves {rest : Row Rat} (h : s.Leftover rest)
    (ho : s.Orderly) (hi : s.registry.get? i = some g) {x : Symbol}
    (hx : g.footprint.Mentions x) :
    (g.leaves rest).coefficient x
      = if g.constraint.relation = .equal ∧ x ≠ g.footprint.marker
        then g.constraint.strength.value else 0 := by
  have hapart := (ho.registered hi).apart
  have hzero := h.coefficient_eq_zero hi hx
  rcases hx with rfl | hx
  · rw [coefficient_leaves_of_ne hapart, hzero,
      if_neg fun hboth => hboth.2 rfl]
  · have hne : x ≠ g.footprint.marker := by
      intro heq
      subst heq
      exact hapart hx
    unfold Registration.leaves
    by_cases hrel : g.constraint.relation = .equal
    · rw [if_pos hrel, if_pos ⟨hrel, hne⟩, hx, Option.elim_some,
        Row.coefficient_addCell, Row.unit_self, hzero, mul_one, zero_add]
    · rw [if_neg hrel, if_neg fun hboth => hrel hboth.1, hzero]

/-- What a constraint leaves behind once it is removed may be left
over. -/
theorem Leftover.leaves {rest : Row Rat} (h : s.Leftover rest)
    (ho : s.Orderly) (hi : s.registry.get? i = some g) :
    (s.withoutRegistration i).Leftover (g.leaves rest) := by
  have hr := ho.registered hi
  have hold : (s.withoutRegistration i).Leftover rest :=
    h.mono (le_refl _) fun _ hx => hx.withoutRegistration i
  intro x h0
  by_cases hx : g.footprint.companion = some x
  · refine ⟨?_, hr.fits.companion_kind hx, hr.below (Or.inr hx),
      ho.free_withoutRegistration hi (Or.inr hx)⟩
    rw [h.coefficient_leaves ho hi (Or.inr hx)]
    split
    · exact hr.weight
    · exact le_refl 0
  · rw [coefficient_leaves_of_ne hx] at h0 ⊢
    exact hold x h0

/-- The objective after forgiveness: the penalty of the others, and what
is left over. -/
theorem Consistent.value_forgive (h : s.Consistent goal)
    (hi : s.registry.get? i = some g) {rest : Row Rat} (ho : s.Owes rest)
    {v : Symbol → Rat} (hv : s.tableau.Solves v) :
    (s.forgive g).tableau.objective.value v
      = (s.withoutRegistration i).penalty v + (g.leaves rest).value v := by
  have hpen := penalty_withoutRegistration hi v
  have hsplit := errors_eq_error?_add (h.registered hi).fits v
  unfold Registration.penalty at hpen
  rw [value_objective_forgive hv, ho v hv, ← hpen, hsplit, value_leaves]
  ring

/-- Forgiving keeps the tableau canonical, its external symbols apart, and
unused symbols unused. -/
theorem Consistent.forgive (h : s.Consistent goal)
    (hi : s.registry.get? i = some g) :
    (s.forgive g).tableau.Canonical
      ∧ (s.forgive g).tableau.Separated
      ∧ ∀ {x}, s.nextId ≤ x.id → (s.forgive g).tableau.Unused x := by
  have hr := h.registered hi
  rw [forgive_eq]
  unfold Solver.forgive withTableau
  cases he : g.footprint.error? with
  | none =>
      exact ⟨h.canonical, h.separated, fun hx => h.fresh hx⟩
  | some e =>
      obtain ⟨hm, hkind⟩ := Footprint.mentions_of_error? he
      have hext := Symbol.isExternal_of_kind hkind (by decide)
      refine ⟨h.canonical.withObjective ?_ fun x hx => ?_,
        h.separated.withObjective fun x hx => ?_,
        fun {x} hx => (h.fresh hx).withObjective ?_⟩
      · exact Tableau.reduced_addSymbol (h.canonical.reduced .objective) _ _ _
      · obtain ⟨d', hd'⟩ := hx
        refine Tableau.coefficient_addSymbol_eq_zero _
          (h.canonical.nonbasic .objective ⟨d', hd'⟩)
          (fun d hd => h.canonical.nonbasic (.row hd) ⟨d', hd'⟩)
          fun hnone => ?_
        intro heq
        subst heq
        rw [hnone] at hd'
        cases hd'
      · exact Tableau.coefficient_addSymbol_eq_zero _
          (h.separated.objective x hx)
          (fun d hd => h.separated.rows hd hext x hx)
          fun _ => (Symbol.ne_of_test hx hext).symm
      · have hunused := h.fresh hx
        refine Tableau.coefficient_addSymbol_eq_zero _
          (hunused.coefficient .objective)
          (fun d hd => hunused.coefficient (.row hd)) fun _ => ?_
        intro heq
        subst heq
        exact absurd (hr.below hm) (not_lt.2 hx)

-- ============================================================== removal

/-- The balance of another constraint does not depend on the marker. -/
private theorem balanced_update (h : s.Orderly)
    (hi : s.registry.get? i = some g) {j : Nat} {g' : Registration Rat}
    (hj : s.registry.get? j = some g') (hij : i ≠ j) (goal : Rat)
    (v : Symbol → Rat) (a : Rat) :
    g'.Balanced (s.read (update v g.footprint.marker a)) goal
        (update v g.footprint.marker a)
      ↔ g'.Balanced (s.read v) goal v := by
  have hext := (h.registered hi).fits.not_external (Or.inl rfl)
  have hgap : g'.footprint.gap (update v g.footprint.marker a)
      = g'.footprint.gap v := by
    refine Footprint.gap_congr fun x hx => Function.update_of_ne ?_ a v
    intro heq
    subst heq
    exact hij (h.disjoint hi hj (Or.inl rfl) hx)
  unfold Registration.Balanced
  rw [read_update h.wellBound hext, hgap]

/-- The gap moves with the marker. -/
private theorem gap_update {f : Footprint}
    (h : f.companion ≠ some f.marker) (v : Symbol → Rat) (a : Rat) :
    f.gap (update v f.marker a) = a - f.companion.elim 0 v := by
  unfold Footprint.gap
  rw [Function.update_self]
  cases hc : f.companion with
  | none => rfl
  | some y =>
      rw [Option.elim_some, Option.elim_some, Function.update_of_ne]
      intro heq
      subst heq
      exact h hc

/-- The others are balanced exactly where some value of the marker
balances all. -/
theorem balances_withoutRegistration (h : s.Orderly)
    (hi : s.registry.get? i = some g) (v : Symbol → Rat) :
    (s.withoutRegistration i).Balances goal v
      ↔ ∃ a, s.Balances goal (update v g.footprint.marker a) := by
  have hr := h.registered hi
  have hread : (s.withoutRegistration i).read v = s.read v := rfl
  constructor
  · intro hb
    -- the marker takes up what its own constraint is short of
    refine ⟨g.footprint.companion.elim 0 v + g.constraint.sign
      * (goal i - g.constraint.expression.valueUnder (s.read v)), ?_⟩
    intro j g' hj
    by_cases hij : i = j
    · subst hij
      obtain rfl := Option.some.inj (hi.symm.trans hj)
      have hsq := g.constraint.sign_mul_self
      unfold Registration.Balanced
      rw [read_update h.wellBound (hr.fits.not_external (Or.inl rfl)),
        gap_update hr.apart, add_sub_cancel_left, ← mul_assoc, hsq]
      ring
    · refine (balanced_update h hi hj hij _ v _).2 ?_
      rw [← hread]
      exact hb j g' (get?_withoutRegistration hij hj)
  · intro hvalue j g' hj
    obtain ⟨a, hb⟩ := hvalue
    obtain ⟨hij, hj⟩ := get?_of_withoutRegistration hj
    exact (balanced_update h hi hj hij _ v a).1 (hb j g' hj)

/-- A registered marker occurs in some row: its value is fixed by the
others. -/
theorem Consistent.marker_occurs (h : s.Consistent goal)
    (hi : s.registry.get? i = some g)
    (hnb : ¬ s.tableau.IsBasic g.footprint.marker)
    (hrows : ∀ b r, s.tableau.rows.get? b = some r →
      r.coefficient g.footprint.marker = 0) : False := by
  have hr := h.registered hi
  have hsol := h.canonical.solves_solution
  -- the solution may be moved at the marker alone
  have hmove : ∀ a, s.tableau.Solves
      (update s.tableau.solution g.footprint.marker a) := by
    intro a b r hb
    rw [Row.value_update_of_eq_zero (hrows b r hb), Function.update_of_ne]
    · exact hsol b r hb
    · intro heq
      subst heq
      exact hnb ⟨r, hb⟩
  have hfix : ∀ a, g.constraint.expression.valueUnder
        (s.read s.tableau.solution)
      + g.constraint.sign
        * (a - g.footprint.companion.elim 0 s.tableau.solution) = goal i := by
    intro a
    have hb := (h.solves _).1 (hmove a) i g hi
    unfold Registration.Balanced at hb
    rwa [read_update h.wellBound (hr.fits.not_external (Or.inl rfl)),
      gap_update hr.apart] at hb
  have h₀ := hfix 0
  have h₁ := hfix 1
  rcases g.constraint.sign_eq_or with hs | hs <;> rw [hs] at h₀ h₁ <;> linarith

/-- What is left of the penalty does not depend on the marker. -/
private theorem penalty_update_marker (h : s.Orderly)
    (hi : s.registry.get? i = some g) (v : Symbol → Rat) (a : Rat) :
    (s.withoutRegistration i).penalty (update v g.footprint.marker a)
      = (s.withoutRegistration i).penalty v := by
  refine Table.sum_congr fun j g' hj => ?_
  unfold Registration.penalty
  congr 1
  refine Footprint.errors_congr fun x hx => Function.update_of_ne ?_ a v
  intro heq
  subst heq
  exact h.free_withoutRegistration hi (Or.inl rfl) j g' hj hx

/-- The objective once the marker has been dropped: the penalty of the
others, and what is left over. -/
theorem Owes.withdraw {rest : Row Rat} (ho : s.Owes rest)
    (hrest : s.Leftover rest) (h : s.Consistent goal)
    (hi : s.registry.get? i = some g) {t : Tableau Rat}
    (hel : (s.forgive g).tableau.Eliminates g.footprint.marker t) :
    ((s.withoutRegistration i).withTableau t).Owes (g.leaves rest) := by
  -- The marker has no part in what is left.
  have hmarker : (g.leaves rest).coefficient g.footprint.marker = 0 := by
    rw [coefficient_leaves_of_ne (h.registered hi).apart]
    exact hrest.coefficient_eq_zero hi (Or.inl rfl)
  intro v hv
  obtain ⟨a, ha⟩ := (hel.solves v).1 hv
  have hval := hel.objective _ ha
  rw [Row.value_update_of_eq_zero
    (hel.eliminated.coefficient .objective)] at hval
  rw [forgive_eq] at ha
  show t.objective.value v = (s.withoutRegistration i).penalty v + _
  rw [hval, h.value_forgive hi ho ha, penalty_update_marker h.toOrderly hi,
    Row.value_update_of_eq_zero hmarker]

/-- The solver that is left once the marker has been dropped is consistent
with the same goals. -/
theorem Consistent.withdraw (h : s.Consistent goal)
    (hi : s.registry.get? i = some g) {t : Tableau Rat}
    (ht : (s.forgive g).tableau.dropMarker g.footprint.marker = .ok t) :
    ((s.withoutRegistration i).withTableau t).Consistent goal := by
  have hr := h.registered hi
  have hext := hr.fits.not_external (Or.inl rfl)
  obtain ⟨hcan, hsep, hunused⟩ := h.forgive hi
  have hel := Tableau.eliminates_of_dropMarker hcan hext ht
  have haux : (s.forgive g).tableau.auxiliary = none := by
    rw [forgive_eq]
    exact h.auxiliary
  have hreg : ∀ {j g'}, (s.withoutRegistration i).registry.get? j = some g' →
      ((s.withoutRegistration i).withTableau t).Registers j g' :=
    fun hj => (h.registered (get?_of_withoutRegistration hj).2).mono
      (le_refl _) id
  have hobj : ∃ rest, ((s.withoutRegistration i).withTableau t).Leftover rest
      ∧ ((s.withoutRegistration i).withTableau t).Owes rest := by
    obtain ⟨rest, hrest, ho⟩ := h.objective
    exact ⟨_, hrest.leaves h.toOrderly hi, Owes.withdraw ho hrest h hi hel⟩
  refine ⟨⟨hel.canonical, fun hx => hel.unused (hunused hx),
    ⟨h.wellBound.external, h.wellBound.below, h.wellBound.injective⟩⟩,
    hreg, fun hj hk => h.disjoint (get?_of_withoutRegistration hj).2
      (get?_of_withoutRegistration hk).2, ?_, hel.auxiliary haux,
    fun hj => h.required (get?_of_withoutRegistration hj).2,
    fun v => ?_, hobj, fun he => (h.edits he).mono (le_refl _) ?_
      fun _ hx => hx.withoutRegistration i⟩
  · exact hel.separated hsep haux
      (monotone_of_objective (s := (s.withoutRegistration i).withTableau t)
        hreg hobj)
  · show t.Solves v ↔ (s.withoutRegistration i).Balances goal v
    rw [hel.solves, balances_withoutRegistration h.toOrderly hi, forgive_eq]
    exact exists_congr fun a => h.solves _
  · intro howner
    obtain ⟨j, g', hj, hf⟩ := howner
    by_cases hij : i = j
    · -- the edit's own constraint: nobody else has its symbols
      subst hij
      obtain rfl := Option.some.inj (hi.symm.trans hj)
      exact Or.inr fun hx =>
        h.free_withoutRegistration hi (hf ▸ hx)
    · exact Or.inl ⟨j, g', get?_withoutRegistration hij hj, hf⟩

-- ============================================================ outcomes

/-- A dummy may be dropped from the tableau: no other row is keyed by
one. -/
def MayDrop (s : Solver Rat) (g : Registration Rat) : Prop :=
  g.constraint.relation = .equal →
    g.constraint.strength.isRequired = true →
    ∀ x ∈ s.tableau.rows.keys, x.isDummy = true → x = g.footprint.marker

/-- No dummy's row mentions the marker, should that be a dummy too. -/
def Detached (s : Solver Rat) (g : Registration Rat) : Prop :=
  g.footprint.marker.isDummy = true →
    ∀ x r, s.tableau.rows.get? x = some r → x.isDummy = true →
      r.coefficient g.footprint.marker = 0

/-- If no other row is keyed by a dummy, none mentions the marker. -/
theorem Consistent.detached_of_mayDrop (h : s.Consistent goal)
    (hi : s.registry.get? i = some g) (hmay : s.MayDrop g) :
    s.Detached g := by
  intro hm x r hx hxd
  have hbasic : s.tableau.IsBasic x := ⟨r, hx⟩
  obtain ⟨relation, required⟩ :=
    (h.registered hi).fits.isDummy_marker_iff.1 hm
  have hxm := hmay relation required x (Tableau.mem_keys_iff.2 hbasic) hxd
  exact h.canonical.nonbasic (.row hx) (hxm ▸ hbasic)

/-- The constraint with the number was removed. -/
structure Removed (s : Solver Rat) (i : Nat) (g : Registration Rat)
    (s' : Solver Rat) (goal : Nat → Rat) : Prop where
  registry : s'.registry = s.registry.erase i
  edits : s'.edits = s.edits
  consistent : s'.Consistent goal
  feasible : s.tableau.Feasible → s'.tableau.Feasible
  settled : s.Settled → s.Detached g → s'.Settled

/-- Dropping the marker leaves the tableau feasible. -/
theorem Consistent.feasible_of_withdraw (h : s.Consistent goal)
    (hi : s.registry.get? i = some g) (hs : s.tableau.Feasible)
    {t : Tableau Rat}
    (ht : (s.forgive g).tableau.dropMarker g.footprint.marker = .ok t) :
    t.Feasible := by
  obtain ⟨hcan, -, -⟩ := h.forgive hi
  have hf : (s.forgive g).tableau.Feasible := by
    rw [forgive_eq]
    exact hs
  exact Tableau.feasible_of_dropMarker hcan hf ht

/-- Dropping a detached marker leaves dummies idle. -/
theorem dummiesIdle_of_withdraw (hs : s.tableau.DummiesIdle)
    (hfree : s.Detached g) {t : Tableau Rat}
    (ht : (s.forgive g).tableau.dropMarker g.footprint.marker = .ok t) :
    t.DummiesIdle := by
  refine Tableau.dummiesIdle_of_dropMarker ?_ ?_ ht
  · rw [forgive_eq]
    exact hs
  · rw [forgive_eq]
    exact hfree

/-- Forgiving does not look at the registry. -/
private theorem forgive_withoutRegistration (s : Solver Rat) (i : Nat)
    (g : Registration Rat) :
    (s.withoutRegistration i).forgive g
      = (s.withoutRegistration i).withTableau (s.forgive g).tableau := by
  unfold forgive
  cases g.footprint.error? <;> rfl

/-- Removal, step by step. -/
theorem remove_eq {c : Constraint Rat}
    (hi : s.registry.get? c.id = some g) (budget : Nat) :
    (∀ f, (s.forgive g).tableau.dropMarker g.footprint.marker = .error f →
        (s.remove budget c).result = .error (.failure f))
      ∧ ∀ t, (s.forgive g).tableau.dropMarker g.footprint.marker = .ok t →
        s.remove budget c
          = ((s.withoutRegistration c.id).withTableau t).settle budget := by
  have hforgive : ({ s with registry := s.registry.erase c.id } :
      Solver Rat).forgive g
      = (s.withoutRegistration c.id).withTableau (s.forgive g).tableau :=
    forgive_withoutRegistration s c.id g
  unfold remove
  rw [hi]
  dsimp only
  rw [hforgive]
  dsimp only [withTableau]
  constructor
  · intro f hf
    rw [hf]
    rfl
  · intro t ht
    rw [ht]

/-- The outcomes of removing a constraint. -/
theorem remove_cases (h : s.Consistent goal) (c : Constraint Rat)
    (budget : Nat) :
    (s.registry.get? c.id = none
        ∧ s.remove budget c = .error s (.unknownConstraint c))
      ∨ (∃ g, s.registry.get? c.id = some g
        ∧ (s.remove budget c).result = .ok ()
        ∧ s.Removed c.id g (s.remove budget c).state goal)
      ∨ ∃ e, (s.remove budget c).result = .error e
        ∧ e.isFatal = true := by
  cases hi : s.registry.get? c.id with
  | none =>
      refine Or.inl ⟨rfl, ?_⟩
      unfold remove
      rw [hi]
  | some g =>
      refine Or.inr ?_
      obtain ⟨herr, hok⟩ := remove_eq hi budget
      cases ht : (s.forgive g).tableau.dropMarker g.footprint.marker with
      | error f =>
          refine Or.inr ⟨.failure f, herr f ht, ?_⟩
          rcases Tableau.error_of_dropMarker ht with rfl | rfl
          · obtain ⟨hnb, hrows⟩ := Tableau.coefficient_of_dropMarker ht
            rw [forgive_eq] at hnb hrows
            exact (h.marker_occurs hi hnb hrows).elim
          · rfl
      | ok t =>
          have hcons := h.withdraw hi ht
          rw [hok t ht]
          cases hset : (((s.withoutRegistration c.id).withTableau t).settle
              budget).result with
          | error e => exact Or.inr ⟨e, rfl, hcons.error_of_settle hset⟩
          | ok u =>
              refine Or.inl ⟨g, rfl, rfl, rfl, rfl, hcons.settle budget,
                fun hf => ?_, fun hs hfree => ?_⟩
              · exact Tableau.minimise_feasible budget .main hcons.canonical
                  (h.feasible_of_withdraw hi hf ht)
              · exact hcons.settled_of_settle
                  (h.feasible_of_withdraw hi hs.feasible ht)
                  (dummiesIdle_of_withdraw hs.dummiesIdle hfree ht) hset

/-- A constraint for which removal ends well is removed. -/
theorem Consistent.removed_of_ok (h : s.Consistent goal)
    {c : Constraint Rat} (hi : s.registry.get? c.id = some g)
    (hok : (s.remove budget c).result = .ok ()) :
    s.Removed c.id g (s.remove budget c).state goal := by
  rcases remove_cases h c budget with
    ⟨hnone, -⟩ | ⟨g', hg', -, hrem⟩ | ⟨e, he, -⟩
  · rw [hi] at hnone
    cases hnone
  · obtain rfl := Option.some.inj (hi.symm.trans hg')
    exact hrem
  · rw [hok] at he
    cases he

end LinearConstraints.Solver
