/-
Operations that keep the state they reach when they fail, and loops.

An operation on a state ends with an answer or with an error, and leaves
a state behind in both cases: a caller who is told of an error goes on
with that state. A loop is a single step, run again and again until it
says to stop; how often it may run is limited by a budget, so that a loop
that would never stop is told apart from one that has.

Main statements: `iterate_of_stop` and `iterate_of_next` unfold a loop by
one step; `iterate_mono` says that a loop that has stopped within its
budget gives the same outcome under any larger budget.
-/

namespace LinearConstraints

/-- How an operation ended, and the state it left behind. -/
structure Outcome (σ ε ρ : Type) where
  state : σ
  result : Except ε ρ

namespace Outcome

variable {σ ε ρ τ : Type}

/-- Ends with an answer. -/
def ok (s : σ) (r : ρ) : Outcome σ ε ρ := ⟨s, .ok r⟩

/-- Ends with an error. -/
def error (s : σ) (e : ε) : Outcome σ ε ρ := ⟨s, .error e⟩

/-- Goes on with the state and the answer, or ends with the error. -/
def andThen (o : Outcome σ ε ρ) (f : σ → ρ → Outcome σ ε τ) :
    Outcome σ ε τ :=
  match o.result with
  | .ok r => f o.state r
  | .error e => ⟨o.state, .error e⟩

@[simp] theorem andThen_ok (s : σ) (r : ρ) (f : σ → ρ → Outcome σ ε τ) :
    (ok s r : Outcome σ ε ρ).andThen f = f s r := rfl

@[simp] theorem andThen_error (s : σ) (e : ε)
    (f : σ → ρ → Outcome σ ε τ) :
    (error s e : Outcome σ ε ρ).andThen f = error s e := rfl

theorem andThen_of_ok {o : Outcome σ ε ρ} {r : ρ}
    (h : o.result = .ok r) (f : σ → ρ → Outcome σ ε τ) :
    o.andThen f = f o.state r := by
  simp [andThen, h]

theorem eq_error {o : Outcome σ ε ρ} {s : σ} {e : ε} (hs : o.state = s)
    (he : o.result = .error e) : o = error s e := by
  unfold error
  rw [← hs, ← he]

/-- There is one way only to end without an error where there is nothing to
answer. -/
theorem result_eq_ok {o : Outcome σ ε Unit} (h : o.result.isOk = true) :
    o.result = .ok () := by
  cases hr : o.result with
  | ok r => rfl
  | error e => rw [hr] at h; cases h

/-- An error of the first part is an error of the whole. -/
theorem result_ne_error_of_andThen {o : Outcome σ ε ρ}
    {f : σ → ρ → Outcome σ ε τ} {e : ε}
    (h : (o.andThen f).result ≠ .error e) : o.result ≠ .error e := by
  intro he
  apply h
  simp [andThen, he]

/-- An error of the whole is one of the first part, which leaves its state
behind, or one of what follows. -/
theorem error_of_andThen {o : Outcome σ ε ρ}
    {f : σ → ρ → Outcome σ ε τ} {e : ε}
    (h : (o.andThen f).result = .error e) :
    (o.result = .error e ∧ (o.andThen f).state = o.state)
      ∨ ∃ r, o.result = .ok r ∧ o.andThen f = f o.state r := by
  cases ho : o.result with
  | ok r => exact Or.inr ⟨r, rfl, andThen_of_ok ho f⟩
  | error d =>
      unfold andThen at h ⊢
      rw [ho] at h ⊢
      exact Or.inl ⟨congrArg _ (Except.error.inj h), rfl⟩

/-- An answer that is only passed on brings in no errors. -/
theorem error_andThen_ok_iff {o : Outcome σ ε ρ} (f : σ → ρ → σ)
    (g : σ → ρ → τ) {e : ε} :
    (o.andThen fun s r => ok (f s r) (g s r)).result = .error e
      ↔ o.result = .error e := by
  unfold andThen
  cases o.result with
  | ok r => exact ⟨fun h => (by cases h), fun h => by cases h⟩
  | error d =>
      exact ⟨fun h => congrArg _ (Except.error.inj h),
        fun h => congrArg _ (Except.error.inj h)⟩

/-- An answer that is only passed on leaves the state as it is. -/
theorem state_andThen_ok (o : Outcome σ ε ρ) (g : σ → ρ → τ) :
    (o.andThen fun s r => ok s (g s r)).state = o.state := by
  unfold andThen
  cases o.result <;> rfl

/-- And it comes from an answer of the first part. -/
theorem ok_of_andThen_ok {o : Outcome σ ε ρ} {g : σ → ρ → τ} {x : τ}
    (h : (o.andThen fun s r => ok s (g s r)).result = .ok x) :
    ∃ r, o.result = .ok r ∧ g o.state r = x := by
  unfold andThen at h
  cases hr : o.result with
  | ok r =>
      rw [hr] at h
      exact ⟨r, rfl, Except.ok.inj h⟩
  | error e =>
      rw [hr] at h
      cases h

/-- Two continuations that agree where the first part leads give the same
whole. -/
theorem andThen_congr {o : Outcome σ ε ρ} {f g : σ → ρ → Outcome σ ε τ}
    (h : ∀ r, o.result = .ok r → f o.state r = g o.state r) :
    o.andThen f = o.andThen g := by
  unfold andThen
  cases hr : o.result with
  | ok r => exact h r hr
  | error e => rfl

end Outcome

-- ============================================================== loops

/-- What one step of a loop does: it stops with a state and a result, or
goes on with a state. -/
inductive Step (σ ε : Type) where
  | stop (s : σ) (result : Except ε Unit)
  | next (s : σ)

variable {σ ε : Type}

/-- Runs a step until it stops, `budget` times at most; the error `spent`
tells that the budget was not enough. -/
def iterate (step : σ → Step σ ε) (spent : ε) :
    (budget : Nat) → σ → Outcome σ ε Unit
  | 0, s => .error s spent
  | budget + 1, s =>
      match step s with
      | .stop s' r => ⟨s', r⟩
      | .next s' => iterate step spent budget s'

theorem iterate_of_stop {step : σ → Step σ ε} {spent : ε} {budget : Nat}
    {s s' : σ} {r : Except ε Unit} (h : step s = .stop s' r) :
    iterate step spent (budget + 1) s = ⟨s', r⟩ := by
  simp [iterate, h]

theorem iterate_of_next {step : σ → Step σ ε} {spent : ε} {budget : Nat}
    {s s' : σ} (h : step s = .next s') :
    iterate step spent (budget + 1) s = iterate step spent budget s' := by
  simp [iterate, h]

/-- More budget changes nothing once a loop stops within it. -/
theorem iterate_mono {step : σ → Step σ ε} {spent : ε} {n m : Nat} {s : σ}
    (hnm : n ≤ m) (h : (iterate step spent n s).result ≠ .error spent) :
    iterate step spent m s = iterate step spent n s := by
  induction n generalizing m s with
  | zero => exact absurd rfl h
  | succ n ih =>
      obtain ⟨m, rfl⟩ : ∃ k, m = k + 1 := ⟨m - 1, by omega⟩
      cases hs : step s with
      | stop s' r => rw [iterate_of_stop hs, iterate_of_stop hs]
      | next s' =>
          rw [iterate_of_next hs] at h
          rw [iterate_of_next hs, iterate_of_next hs]
          exact ih (by omega) h

/-- A loop whose steps keep a property ends at a step that stops in a
state with the property, or spends its budget and leaves such a state. -/
theorem iterate_induction {step : σ → Step σ ε} {spent : ε}
    {P : σ → Prop} (hnext : ∀ s s', P s → step s = .next s' → P s') :
    ∀ (budget : Nat) (s : σ), P s →
      (iterate step spent budget s).result = .error spent
          ∧ P (iterate step spent budget s).state
        ∨ ∃ s₁, P s₁
            ∧ step s₁ = .stop (iterate step spent budget s).state
                (iterate step spent budget s).result := by
  intro budget
  induction budget with
  | zero => intro s hs; exact Or.inl ⟨rfl, hs⟩
  | succ n ih =>
      intro s hs
      cases h : step s with
      | stop s' r =>
          rw [iterate_of_stop h]
          exact Or.inr ⟨s, hs, h⟩
      | next s' =>
          rw [iterate_of_next h]
          exact ih s' (hnext s s' hs h)

/-- What the steps of a loop keep, to the last one, the loop keeps. -/
theorem iterate_state {step : σ → Step σ ε} {spent : ε} {P : σ → Prop}
    (hnext : ∀ s s', P s → step s = .next s' → P s')
    (hstop : ∀ s s' r, P s → step s = .stop s' r → P s')
    (budget : Nat) {s : σ} (hs : P s) :
    P (iterate step spent budget s).state := by
  rcases iterate_induction hnext budget s hs with
    ⟨-, hlast⟩ | ⟨s₁, hs₁, hstep⟩
  · exact hlast
  · exact hstop _ _ _ hs₁ hstep

/-- A loop does not end in an error, other than a spent budget, that none
of its steps stops with. -/
theorem iterate_ne_error {step : σ → Step σ ε} {spent e : ε}
    {P : σ → Prop} (hnext : ∀ s s', P s → step s = .next s' → P s')
    (hstop : ∀ s s', P s → step s ≠ .stop s' (.error e)) (hne : e ≠ spent)
    {s : σ} (hs : P s) (budget : Nat) :
    (iterate step spent budget s).result ≠ .error e := by
  intro h
  rcases iterate_induction hnext budget s hs with
    ⟨hspent, -⟩ | ⟨s₁, hs₁, hstep⟩
  · exact hne (Except.error.inj (h.symm.trans hspent))
  · rw [h] at hstep
    exact hstop _ _ hs₁ hstep

/-- Loops whose steps are the same, while a property is kept, are the
same. -/
theorem iterate_congr {step step' : σ → Step σ ε} {spent : ε}
    {P : σ → Prop} (hnext : ∀ s s', P s → step s = .next s' → P s')
    (hstep : ∀ s, P s → step' s = step s) :
    ∀ (budget : Nat) (s : σ), P s →
      iterate step' spent budget s = iterate step spent budget s := by
  intro budget
  induction budget with
  | zero => exact fun _ _ => rfl
  | succ n ih =>
      intro s hs
      cases h : step s with
      | stop s' r =>
          rw [iterate_of_stop h, iterate_of_stop ((hstep s hs).trans h)]
      | next s' =>
          rw [iterate_of_next h, iterate_of_next ((hstep s hs).trans h)]
          exact ih s' (hnext s s' hs h)

end LinearConstraints
