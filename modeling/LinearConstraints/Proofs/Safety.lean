/-
Safety: the failures of the tableau that no operation comes to.

An unbounded objective would take a symbol whose growth lowers a sum of
errors; a missing marker would take a constraint that the tableau says
nothing about; and a negative row that nothing can raise would take a
suggestion that leaves no proper valuation. Consistency rules out the
first two in every reachable state, and settledness the third. Adding
constraints in a batch is adding them one by one, so a batch leads where
its commands lead and fails only as one of them would.

Main statement: `Reachable.no_internal_failure`.
-/
import LinearConstraints.Proofs.Transition

namespace LinearConstraints.Solver

variable {s : Solver Rat} {budget : Nat}
  {allowed : Solver Rat → Command Rat → Prop}

-- ============================================================= batches

/-- Adding constraints one by one, the first of them first. -/
private theorem addAll_cons (s : Solver Rat) (budget : Nat)
    (c : Constraint Rat) (cs : List (Constraint Rat)) :
    s.addAll budget (c :: cs)
      = (s.perform budget (.add c)).andThen fun s' _ =>
          s'.addAll budget cs := rfl

private theorem returned_of_ok {ρ : Type}
    {o : Outcome (Solver Rat) (Error Rat) ρ} {r : ρ}
    (h : o.result = .ok r) : o.Returned := by
  intro e he
  rw [h] at he
  cases he

/-- A batch fails as the command does at which it stops. -/
theorem Reachable.error_of_addAll {cs : List (Constraint Rat)}
    (hadd : ∀ s, ∀ c ∈ cs, allowed s (.add c)) (h : Reachable allowed s)
    {e : Error Rat} (he : (s.addAll budget cs).result = .error e) :
    ∃ s' c, Reachable allowed s' ∧ c ∈ cs
      ∧ (s'.perform budget (.add c)).result = .error e := by
  induction cs generalizing s with
  | nil => cases he
  | cons c cs ih =>
      have hc : c ∈ c :: cs := List.mem_cons_self ..
      rw [addAll_cons] at he
      cases hr : (s.perform budget (.add c)).result with
      | ok u =>
          rw [Outcome.andThen_of_ok hr] at he
          obtain ⟨s', c', hs', hc', hres⟩ := ih
            (fun s' c' hc' => hadd s' c' (List.mem_cons_of_mem c hc'))
            (.step budget h (hadd s c hc) (returned_of_ok hr)) he
          exact ⟨s', c', hs', List.mem_cons_of_mem c hc', hres⟩
      | error e' =>
          unfold Outcome.andThen at he
          rw [hr] at he
          obtain rfl := Except.error.inj he
          exact ⟨s, c, h, hc, hr⟩

/-- A batch that comes to an end leads to a reachable state. -/
theorem Reachable.addAll {cs : List (Constraint Rat)}
    (hadd : ∀ s, ∀ c ∈ cs, allowed s (.add c)) (h : Reachable allowed s)
    (hends : (s.addAll budget cs).Returned) :
    Reachable allowed (s.addAll budget cs).state := by
  induction cs generalizing s with
  | nil => exact h
  | cons c cs ih =>
      rw [addAll_cons] at hends ⊢
      have hmay := hadd s c (List.mem_cons_self ..)
      cases hr : (s.perform budget (.add c)).result with
      | ok u =>
          rw [Outcome.andThen_of_ok hr] at hends ⊢
          exact ih
            (fun s' c' hc' => hadd s' c' (List.mem_cons_of_mem c hc'))
            (.step budget h hmay (returned_of_ok hr)) hends
      | error e =>
          unfold Outcome.andThen at hends ⊢
          rw [hr] at hends ⊢
          refine .step budget h hmay fun e' he' => ?_
          rw [hr] at he'
          exact hends e' he'

-- ============================================================ failures

/-- The outcomes of the operations that change a solver: those of a
command, and those of adding constraints one by one. -/
inductive Outcomes (s : Solver Rat) (budget : Nat) :
    Outcome (Solver Rat) (Error Rat) Unit → Prop where
  | command {c : Command Rat} (h : c.Built) :
      Outcomes s budget (s.perform budget c)
  | batch {cs : List (Constraint Rat)} (h : ∀ c ∈ cs, c.Built) :
      Outcomes s budget (s.addAll budget cs)

/-- A failure of an operation is one of a command in a reachable state. -/
theorem Reachable.perform_of_outcomes
    (hadd : ∀ s (c : Constraint Rat), c.Built → allowed s (.add c))
    (h : Reachable allowed s) {o : Outcome (Solver Rat) (Error Rat) Unit}
    (ho : s.Outcomes budget o) {e : Error Rat} (he : o.result = .error e) :
    ∃ s' c, Reachable allowed s' ∧ Command.Built c
      ∧ (s'.perform budget c).result = .error e := by
  cases ho with
  | command hb => exact ⟨s, _, h, hb, he⟩
  | batch hb =>
      obtain ⟨s', c, hs', hc, hres⟩ :=
        h.error_of_addAll (fun s c hc => hadd s c (hb c hc)) he
      exact ⟨s', .add c, hs', hb c hc, hres⟩

/-- In a consistent solver, a command that fails has not come to an end,
or wanted a symbol to raise a row of a solver that is not settled. -/
theorem Consistent.failure_cases {goal : Nat → Rat}
    (h : s.Consistent goal) {c : Command Rat} (hb : c.Built)
    {f : Tableau.Failure}
    (hf : (s.perform budget c).result = .error (.failure f)) :
    (f = .absentSymbol ∨ f = .budgetSpent)
      ∨ f = .noDualEnteringSymbol ∧ ¬ s.Settled := by
  rcases perform_cases h hb budget with ⟨e, he, hfatal⟩ | ⟨hexc, -⟩
  · rw [hf] at he
    obtain rfl := Except.error.inj he
    refine Or.inl ?_
    cases f with
    | absentSymbol => exact Or.inl rfl
    | budgetSpent => exact Or.inr rfl
    | unboundedObjective => cases hfatal
    | noMarkerLeavingRow => cases hfatal
    | noDualEnteringSymbol => cases hfatal
  · exact Or.inr (hexc f hf)

/-- No operation on a reachable state finds the objective unbounded or a
marker missing; and if required equalities were removed only while no other
row was keyed by a dummy, none finds a row that cannot be raised. -/
theorem Reachable.no_internal_failure
    (h : Reachable (fun _ c => Command.Built c) s)
    {o : Outcome (Solver Rat) (Error Rat) Unit} (ho : s.Outcomes budget o) :
    o.result ≠ .error (.failure .unboundedObjective)
      ∧ o.result ≠ .error (.failure .noMarkerLeavingRow)
      ∧ (Reachable (fun s c => Command.Built c ∧ s.Spares c) s →
          o.result ≠ .error (.failure .noDualEnteringSymbol)) := by
  have hbuilt : ∀ {f}, o.result = .error (.failure f) →
      (f = .absentSymbol ∨ f = .budgetSpent) ∨ f = .noDualEnteringSymbol := by
    intro f hf
    obtain ⟨s', c, hs', hb, hres⟩ :=
      h.perform_of_outcomes (fun _ _ hb => hb) ho hf
    obtain ⟨goal, hcons⟩ := hs'.consistent
    exact (hcons.failure_cases hb hres).imp_right And.left
  refine ⟨fun hf => ?_, fun hf => ?_, fun hg hf => ?_⟩
  · rcases hbuilt hf with (hf | hf) | hf <;> cases hf
  · rcases hbuilt hf with (hf | hf) | hf <;> cases hf
  · have hadd : ∀ (s : Solver Rat) (c : Constraint Rat), c.Built →
        Command.Built (.add c) ∧ s.Spares (.add c) := by
      intro s c hb
      refine ⟨hb, fun i g hi => ?_⟩
      cases hi
    obtain ⟨s', c, hs', hb, hres⟩ := hg.perform_of_outcomes hadd ho hf
    obtain ⟨goal, hcons, hset⟩ := hs'.settled
    rcases hcons.failure_cases hb hres with (hf | hf) | ⟨-, hf⟩
    · cases hf
    · cases hf
    · exact hf hset

/-- Pulling the slider back below its lower end fails in none of these
ways. -/
theorem pulledSlider_no_internal_failure :
    Reachable (fun _ c => Command.Built c) pulledSlider
      ∧ Command.Built (.suggest slider (-3))
      ∧ (pulledSlider.perform 10 (.suggest slider (-3))).result
          ≠ .error (.failure .unboundedObjective)
      ∧ (pulledSlider.perform 10 (.suggest slider (-3))).result
          ≠ .error (.failure .noMarkerLeavingRow)
      ∧ (pulledSlider.perform 10 (.suggest slider (-3))).result
          ≠ .error (.failure .noDualEnteringSymbol) := by
  have hreach := reachable_pulledSlider
  have hbuilt : Reachable (fun _ c => Command.Built c) pulledSlider :=
    hreach.mono fun _ _ h => h.1
  have hspares : Reachable (fun s c => Command.Built c ∧ s.Spares c)
      pulledSlider := hreach.mono fun _ _ h => ⟨h.1, h.2.1⟩
  have hcommand : Command.Built (.suggest slider (-3)) := trivial
  obtain ⟨hunbounded, hmarker, hdual⟩ :=
    Reachable.no_internal_failure hbuilt (.command hcommand)
  exact ⟨hbuilt, hcommand, hunbounded, hmarker, hdual hspares⟩

end LinearConstraints.Solver
