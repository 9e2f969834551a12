/-
Stalling: a search that never ends comes to a point from which it makes no
more headway.

A step of the primal search over a feasible tableau does not raise its
objective, and a step of the dual search over a lowest objective does not
lower it. Either step restates the tableau. So what the objective is worth
after it depends on the basis alone: two tableaux that restate a third and
have the same basic symbols have the same solution. There are finitely many
bases, hence an endless search changes the worth of its objective finitely
often. From then on it exchanges symbols without end at the same worth; it
stalls.

The rules by which symbols are chosen have no part in this, and so it
cannot be said that a search does not stall. Whether it does is a matter of
how its pivots tie.

# Loops

A loop is endless if it runs through states that each lead to the next.
Seen from outside this is a loop for which no budget is enough. A loop that
comes back to a state it has been in is endless.

Main statements: `endless_iff_spent`, `endless_of_cycle` and
`Loop.Sound.endless_iff_stalls`.
-/
import LinearConstraints.Proofs.DualSimplex
import Mathlib.Data.Finset.Powerset
import Mathlib.Data.Finset.Prod
import Mathlib.Data.Set.Finite.Lemmas

namespace LinearConstraints

-- ======================================================= endless loops

section Loops

variable {σ ε : Type} {step : σ → Step σ ε} {spent : ε} {s s' : σ}

/-- Each state leads to the next. -/
def Orbit (step : σ → Step σ ε) (u : ℕ → σ) : Prop :=
  ∀ k, step (u k) = .next (u (k + 1))

/-- The loop that starts in a state goes on for ever. -/
def Endless (step : σ → Step σ ε) (s : σ) : Prop :=
  ∃ u, u 0 = s ∧ Orbit step u

theorem Orbit.iterate_eq {u : ℕ → σ} (h : Orbit step u) (n k : ℕ) :
    iterate step spent n (u k) = .error (u (k + n)) spent := by
  induction n generalizing k with
  | zero => rfl
  | succ n ih => rw [iterate_of_next (h k), ih, Nat.add_assoc, Nat.add_comm 1]

/-- Where a step leads, or stops. -/
def advance (step : σ → Step σ ε) (s : σ) : σ :=
  match step s with
  | .stop s' _ => s'
  | .next s' => s'

-- Below, no step stops with the error that tells of a spent budget.

variable (hstop : ∀ s s', step s ≠ .stop s' (.error spent))

include hstop in
/-- A loop for which no budget is enough goes on, and none is enough for
what follows. -/
private theorem next_of_spent
    (h : ∀ n, (iterate step spent n s).result = .error spent) :
    step s = .next (advance step s)
      ∧ ∀ n, (iterate step spent n (advance step s)).result
          = .error spent := by
  unfold advance
  cases hs : step s with
  | stop s' r =>
      have h₁ := h 1
      rw [iterate_of_stop hs] at h₁
      exact absurd (hs.trans (congrArg _ h₁)) (hstop s s')
  | next s' =>
      refine ⟨rfl, fun n => ?_⟩
      have hn := h (n + 1)
      rwa [iterate_of_next hs] at hn

include hstop in
/-- A loop is endless exactly if no budget is enough for it. -/
theorem endless_iff_spent :
    Endless step s
      ↔ ∀ n, (iterate step spent n s).result = .error spent := by
  constructor
  · intro h n
    obtain ⟨u, rfl, hu⟩ := h
    rw [hu.iterate_eq]
    rfl
  · intro h
    have key : ∀ k n, (iterate step spent n ((advance step)^[k] s)).result
        = .error spent := by
      intro k
      induction k with
      | zero => exact h
      | succ k ih =>
          rw [Function.iterate_succ_apply']
          exact (next_of_spent hstop ih).2
    refine ⟨fun k => (advance step)^[k] s, rfl, fun k => ?_⟩
    dsimp only
    rw [Function.iterate_succ_apply']
    exact (next_of_spent hstop (key k)).1

include hstop in
/-- A loop that has spent its budget may be taken up where it was left. -/
theorem iterate_add {n : ℕ} (h : iterate step spent n s = .error s' spent)
    (m : ℕ) :
    iterate step spent (n + m) s = iterate step spent m s' := by
  induction n generalizing s with
  | zero =>
      obtain rfl : s = s' := congrArg Outcome.state h
      rw [Nat.zero_add]
  | succ n ih =>
      cases hs : step s with
      | stop s₁ r =>
          rw [iterate_of_stop hs] at h
          have hr : r = .error spent := congrArg Outcome.result h
          exact absurd (hr ▸ hs) (hstop s s₁)
      | next s₁ =>
          rw [iterate_of_next hs] at h
          rw [Nat.add_right_comm, iterate_of_next hs]
          exact ih h

include hstop in
/-- A loop that comes back to a state it has been in is endless. -/
theorem endless_of_cycle {n k : ℕ}
    (hrun : iterate step spent n s = .error s' spent)
    (hcycle : iterate step spent (k + 1) s' = .error s' spent) :
    Endless step s := by
  have hround : ∀ j, iterate step spent (n + j * (k + 1)) s
      = .error s' spent := by
    intro j
    rw [iterate_add hstop hrun]
    induction j with
    | zero =>
        rw [Nat.zero_mul]
        rfl
    | succ j ih =>
        rw [Nat.succ_mul, iterate_add hstop ih]
        exact hcycle
  refine (endless_iff_spent hstop).2 fun m => ?_
  by_contra hne
  have hle : m ≤ n + m * (k + 1) :=
    le_add_left (Nat.le_mul_of_pos_right m k.succ_pos)
  rw [← iterate_mono hle hne, hround] at hne
  exact hne rfl

end Loops

/-- A sequence that never falls, or never rises, is constant in the end if
it takes finitely many values. -/
private theorem eventually_constant {f : ℕ → Rat}
    (hf : Antitone f ∨ Monotone f) (hfin : (Set.range f).Finite) :
    ∃ n, ∀ k, n ≤ k → f k = f n := by
  have hne : (Set.range f).Nonempty := ⟨f 0, 0, rfl⟩
  rcases hf with hf | hf
  · obtain ⟨-, ⟨n, rfl⟩, hmin⟩ := Set.exists_min_image _ id hfin hne
    exact ⟨n, fun k hk => le_antisymm (hf hk) (hmin _ ⟨k, rfl⟩)⟩
  · obtain ⟨-, ⟨n, rfl⟩, hmax⟩ := Set.exists_max_image _ id hfin hne
    exact ⟨n, fun k hk => le_antisymm (hmax _ ⟨k, rfl⟩) (hf hk)⟩

namespace Tableau

variable {t t' t₁ t₂ : Tableau Rat} {goal : Goal}

-- ============================================================== bases

/-- The basic symbols. -/
def basis (t : Tableau Rat) : Finset Symbol := t.rows.keys.toFinset

theorem mem_basis {x : Symbol} : x ∈ t.basis ↔ t.IsBasic x := by
  unfold basis
  rw [List.mem_toFinset, mem_keys_iff]

/-- All symbols with a number below some limit. -/
def symbolsBelow (n : ℕ) : Finset Symbol :=
  (({.external, .slack, .error, .dummy} : Finset Symbol.Kind)
    ×ˢ Finset.range n).image fun p => ⟨p.1, p.2⟩

theorem mem_symbolsBelow {n : ℕ} {x : Symbol} (h : x.id < n) :
    x ∈ symbolsBelow n := by
  refine Finset.mem_image.2 ⟨(x.kind, x.id), ?_, rfl⟩
  refine Finset.mem_product.2 ⟨?_, Finset.mem_range.2 h⟩
  show x.kind ∈ _
  cases x.kind <;> decide

/-- The solution is the one valuation that solves the tableau and is zero
outside the basis. -/
theorem Canonical.eq_solution (hc : t.Canonical) {v : Symbol → Rat}
    (hv : t.Solves v) (hzero : ∀ x, ¬ t.IsBasic x → v x = 0) :
    v = t.solution := by
  funext x
  by_cases hx : t.IsBasic x
  · obtain ⟨r, hr⟩ := hx
    rw [hv x r hr, solution_of_row hr]
    refine Row.value_eq_constant fun y => ?_
    by_cases hy : t.IsBasic y
    · rw [hc.nonbasic (.row hr) hy, zero_mul]
    · rw [hzero y hy, mul_zero]
  · rw [hzero x hx, solution_of_not_basic hx]

/-- Restatements of one tableau with the same basis have the same
solution. -/
theorem Restates.solution_eq (h₁ : t.Restates t₁) (h₂ : t.Restates t₂)
    (hb : t₁.basis = t₂.basis) : t₁.solution = t₂.solution := by
  have hsol := (h₁.solves _).1 h₁.canonical.solves_solution
  refine h₂.canonical.eq_solution ((h₂.solves _).2 hsol) fun x hx => ?_
  refine solution_of_not_basic fun hx₁ => hx ?_
  rw [← mem_basis, ← hb, mem_basis]
  exact hx₁

/-- No new symbol becomes basic. -/
theorem Restates.basis_subset {n : ℕ}
    (hbelow : ∀ x : Symbol, n ≤ x.id → t.Unused x) (h : t.Restates t') :
    t'.basis ⊆ symbolsBelow n := by
  intro x hx
  refine mem_symbolsBelow (not_le.1 fun hn => ?_)
  exact (h.unused (hbelow x hn)).not_basic (mem_basis.1 hx)

-- =============================================================== worth

/-- What an objective is worth in the solution. -/
def worth (t : Tableau Rat) (goal : Goal) : Rat :=
  (t.goalRow? goal).elim 0 Row.constant

/-- The worth of an objective after a restatement, in terms of the
objective before. -/
theorem Restates.worth_eq_elim (h : t.Restates t') (goal : Goal) :
    t'.worth goal = (t.goalRow? goal).elim 0 (Row.value t'.solution) := by
  have hsol := (h.solves _).1 h.canonical.solves_solution
  cases goal with
  | main =>
      show t'.objective.constant = t.objective.value t'.solution
      rw [← h.objective _ hsol, h.canonical.value_solution .objective]
  | auxiliary =>
      have haux := h.auxiliary _ hsol
      show t'.auxiliary.elim 0 _ = t.auxiliary.elim 0 _
      cases ha' : t'.auxiliary with
      | none =>
          rw [ha'] at haux
          rw [Option.map_eq_none_iff.1 haux.symm]
          rfl
      | some a' =>
          rw [ha'] at haux
          obtain ⟨a, ha, hval⟩ := Option.map_eq_some_iff.1 haux.symm
          rw [ha, Option.elim_some, Option.elim_some, hval]
          exact (h.canonical.value_solution (.auxiliary ha')).symm

/-- A sequence of restatements takes the worth of an objective through
finitely many values. -/
theorem finite_range_worth {n : ℕ}
    (hbelow : ∀ x : Symbol, n ≤ x.id → t.Unused x)
    {u : ℕ → Tableau Rat} (hu : ∀ k, t.Restates (u k)) (goal : Goal) :
    (Set.range fun k => (u k).worth goal).Finite := by
  have hfactors : Function.FactorsThrough (fun k => (u k).worth goal)
      fun k => (u k).basis := by
    intro i j hb
    have hsol := (hu i).solution_eq (hu j) hb
    dsimp only
    rw [(hu i).worth_eq_elim, (hu j).worth_eq_elim, hsol]
  obtain ⟨g, hg⟩ := (Function.factorsThrough_iff _).1 hfactors
  have hbases : (Set.range fun k => (u k).basis).Finite := by
    refine (symbolsBelow n).powerset.finite_toSet.subset ?_
    rintro - ⟨k, rfl⟩
    exact Finset.mem_coe.2
      (Finset.mem_powerset.2 ((hu k).basis_subset hbelow))
  rw [hg, Set.range_comp]
  exact hbases.image g

theorem worth_install (goal : Goal) (b s : Symbol) {d o : Row Rat}
    (ho : t.goalRow? goal = some o) :
    ((t.without b).install s d).worth goal
      = o.constant + o.coefficient s * d.constant := by
  have h : ((t.without b).install s d).goalRow? goal
      = (t.goalRow? goal).map fun o => o.substitute s d := by
    cases goal <;> rfl
  unfold worth
  rw [h, ho, Option.map_some, Option.elim_some, Row.constant_substitute]

/-- The symbol that enters lowers the objective, and enters at a value
that is not negative. -/
theorem primalStep_worth_le (hc : t.Canonical) (hf : t.Feasible)
    (h : primalStep goal t = .next t') : t'.worth goal ≤ t.worth goal := by
  obtain ⟨o, s, b, r, d, ho, hs, hb, hp, rfl⟩ := primalStep_eq_next h
  obtain ⟨r', hr', hext, hneg, -⟩ := leaving?_spec hb
  obtain rfl := Option.some.inj (hp.row.symm.trans hr')
  have hd := hp.constant_nonneg (hp.not_basic hc) (hf b r hp.row hext) hneg
  have hos := (entering?_spec hs).2
  have hworth : t.worth goal = o.constant := by
    unfold worth
    rw [ho, Option.elim_some]
  rw [worth_install goal b s ho, hworth]
  linarith [mul_nonpos_of_nonpos_of_nonneg (le_of_lt hos) hd]

/-- The symbol that enters does not lower the objective, and enters at a
value that is not negative. -/
theorem dualStep_le_worth (hc : t.Canonical) (hlow : t.objective.Lowest)
    (h : dualStep t = .next t') : t.worth .main ≤ t'.worth .main := by
  obtain ⟨b, rest, hs, ⟨rfl, -⟩ | ⟨s, r, d, hneg, hent, hp, rfl⟩⟩ :=
    dualStep_eq_next h
  · exact le_refl _
  · have hc' := (restates_popped hc hs).canonical
    obtain ⟨hsd, hpos, -⟩ := dualEntering?_spec hent
    have hd := hp.constant_nonneg_of_due (hp.not_basic hc') hneg hpos
    rw [worth_install (t := t.popped rest) .main b s rfl]
    exact le_add_of_nonneg_right (mul_nonneg (hlow s hsd) hd)

-- ============================================================== stalls

/-- A loop on a tableau: the search for the minimum of an objective, or
the repair of the rows on the stack. -/
inductive Loop where
  | lower (goal : Goal) (t : Tableau Rat)
  | repair (t : Tableau Rat)

namespace Loop

/-- Where the loop starts. -/
def start : Loop → Tableau Rat
  | lower _ t => t
  | repair t => t

/-- What it does again and again. -/
def step : Loop → Tableau Rat → Step (Tableau Rat) Failure
  | lower goal _ => primalStep goal
  | repair _ => dualStep

/-- The objective that it works on, or keeps lowest. -/
def objective : Loop → Goal
  | lower goal _ => goal
  | repair _ => .main

/-- The loop goes on for ever. -/
def Endless (l : Loop) : Prop := LinearConstraints.Endless l.step l.start

/-- The loop goes on for ever, and from some step on the worth of its
objective stays the same. -/
def Stalls (l : Loop) : Prop :=
  ∃ u, u 0 = l.start ∧ Orbit l.step u
    ∧ ∃ n, ∀ k, n ≤ k → (u k).worth l.objective = (u n).worth l.objective

/-- The loop starts from where it makes headway: the primal search from a
feasible tableau, the dual one from a lowest objective. -/
inductive Sound : Loop → Prop where
  | lower {goal : Goal} {t : Tableau Rat} {n : ℕ} (canonical : t.Canonical)
      (below : ∀ x : Symbol, n ≤ x.id → t.Unused x)
      (feasible : t.Feasible) : Sound (.lower goal t)
  | repair {t : Tableau Rat} {n : ℕ} (canonical : t.Canonical)
      (below : ∀ x : Symbol, n ≤ x.id → t.Unused x)
      (separated : t.Separated) (lowest : t.objective.Lowest) :
      Sound (.repair t)

variable {l : Loop}

theorem Stalls.endless (h : l.Stalls) : l.Endless := by
  obtain ⟨u, hu0, hu, -⟩ := h
  exact ⟨u, hu0, hu⟩

/-- Every tableau that a search over a feasible one runs through restates
it and is feasible. -/
private theorem restates_of_orbit_lower {u : ℕ → Tableau Rat}
    (hc : (u 0).Canonical) (hf : (u 0).Feasible)
    (hu : Orbit (primalStep goal) u) (k : ℕ) :
    (u 0).Restates (u k) ∧ (u k).Feasible := by
  induction k with
  | zero => exact ⟨.refl hc, hf⟩
  | succ k ih =>
      obtain ⟨hre, hfk⟩ := ih
      exact ⟨hre.trans (primalStep_restates hre.canonical (hu k)),
        primalStep_feasible hre.canonical hfk (hu k)⟩

/-- Every tableau that a repair under a lowest objective runs through
restates the first, and its objective is lowest. -/
private theorem restates_of_orbit_repair {u : ℕ → Tableau Rat}
    (hc : (u 0).Canonical) (hsep : (u 0).Separated)
    (hlow : (u 0).objective.Lowest) (hu : Orbit dualStep u) (k : ℕ) :
    (u 0).Restates (u k) ∧ (u k).objective.Lowest := by
  induction k with
  | zero => exact ⟨.refl hc, hlow⟩
  | succ k ih =>
      obtain ⟨hre, hlowk⟩ := ih
      exact ⟨hre.trans (dualStep_restates hre.canonical
          (hre.separated hsep) (hu k)),
        dualStep_lowest hre.canonical hlowk (hu k)⟩

/-- An endless loop stalls. -/
theorem Sound.endless_iff_stalls (h : l.Sound) : l.Endless ↔ l.Stalls := by
  refine ⟨fun hend => ?_, Stalls.endless⟩
  obtain ⟨u, hu0, hu⟩ := hend
  refine ⟨u, hu0, hu, ?_⟩
  cases h with
  | lower canonical below feasible =>
      obtain rfl := hu0
      have hkeep := restates_of_orbit_lower canonical feasible hu
      refine eventually_constant (Or.inl (antitone_nat_of_succ_le fun k => ?_))
        (finite_range_worth below (fun k => (hkeep k).1) _)
      exact primalStep_worth_le (hkeep k).1.canonical (hkeep k).2 (hu k)
  | repair canonical below separated lowest =>
      obtain rfl := hu0
      have hkeep := restates_of_orbit_repair canonical separated lowest hu
      refine eventually_constant (Or.inr (monotone_nat_of_le_succ fun k => ?_))
        (finite_range_worth below (fun k => (hkeep k).1) _)
      exact dualStep_le_worth (hkeep k).1.canonical (hkeep k).2 (hu k)

-- ============================================================= budgets

/-- The loop within a budget. -/
def run (l : Loop) (budget : ℕ) : Outcome (Tableau Rat) Failure Unit :=
  iterate l.step .budgetSpent budget l.start

/-- No step takes the budget for spent. -/
theorem step_ne_spent (l : Loop) (t t' : Tableau Rat) :
    l.step t ≠ .stop t' (.error .budgetSpent) := by
  intro h
  cases l with
  | lower goal t₀ =>
      rcases (primalStep_eq_stop h).2.2 _ rfl with hf | ⟨hf, -⟩ <;> cases hf
  | repair t₀ =>
      obtain ⟨-, -, -, -, -, -, -, ⟨hf, -⟩ | hf⟩ :=
        (dualStep_eq_stop h).2 _ rfl <;> cases hf

/-- A loop is endless exactly if no budget is enough for it. -/
theorem endless_iff_run : l.Endless
    ↔ ∀ n, (l.run n).result = .error .budgetSpent :=
  endless_iff_spent l.step_ne_spent

end Loop

end Tableau

end LinearConstraints
