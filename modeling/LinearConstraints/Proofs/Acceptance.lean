/-
Acceptance: only required constraints can be refused.

The equation of a constraint that may be violated ends with two symbols of
its own, one with the coefficient one and one with minus one
(`Numbered.opposes_equation`). Both have just been given out, so whatever
has been merged into the equation before, whatever numbers came out of it,
leaves these two cells alone. So there is always a symbol to solve for: an
external one, or that of the two with minus one. The equation is made part
of the tableau at once, and the constraint is registered before the
objective is lowered again. What can go wrong after that is no refusal.

# What is asked of the numbers

A few laws about one, minus one and zero (`LawfulUnit`), and none about
coefficients or constants. They may be infinite or no numbers at all.

Main statement: `Traced.accepts`.
-/
import LinearConstraints.Proofs.Checked
import LinearConstraints.Proofs.Refusal

namespace LinearConstraints

variable {α : Type} [Scalar α]

-- ============================================================= numbers

/-- Rationals together with a value that is not a number. It spreads
through arithmetic and compares with nothing. -/
def PartialRat : Type := Option Rat

instance : DecidableEq PartialRat := inferInstanceAs (DecidableEq (Option Rat))

namespace PartialRat

/-- The value that is not a number. -/
def nan : PartialRat := none

/-- Compares numbers. -/
def compare (p : Rat → Rat → Bool) : PartialRat → PartialRat → Bool
  | some a, some b => p a b
  | _, _ => false

/-- Calculates with numbers. -/
def combine (f : Rat → Rat → Rat) : PartialRat → PartialRat → PartialRat
  | some a, some b => some (f a b)
  | _, _ => none

instance instScalar : Scalar PartialRat where
  zero := some 0
  one := some 1
  natCast := fun n => some n
  neg := Option.map fun a => -a
  add := combine (· + ·)
  sub := combine (· - ·)
  mul := combine (· * ·)
  div := combine (· / ·)
  beq := compare fun a b => decide (a = b)
  lt := fun a b => compare (fun a b => decide (a < b)) a b = true
  le := fun a b => compare (fun a b => decide (a ≤ b)) a b = true
  decLt := fun _ _ => inferInstance
  decLe := fun _ _ => inferInstance
  nearZero := compare (fun a b => decide (a = b)) (some 0)
  isRatio := Option.isSome

instance : LawfulUnit PartialRat where
  zero_add_one := by decide +kernel
  zero_add_neg_one := by decide +kernel
  neg_neg_one := by decide +kernel
  neg_one_neg := by decide +kernel
  one_not_near := by decide +kernel
  neg_one_not_near := by decide +kernel

end PartialRat

namespace Solver

variable {s : Solver α} {arts : List Symbol} {c : Constraint α}

-- ========================================================== acceptance

/-- The equation is made part of the tableau at once, and the constraint is
registered before the objective is lowered. -/
theorem Numbered.register_direct [LawfulUnit α] (hs : s.Numbered)
    (hc : c.strength.isRequired = false) (hnew : s.contains c = false)
    (budget : ℕ) :
    ∃ x d, pivotFor? (s.equation c).1 (s.equation c).2.1 = some x
      ∧ (s.equation c).1.isolate? x = some d
      ∧ s.register budget c
        = (({ (s.equation c).2.2 with
              tableau := (s.equation c).2.2.tableau.install x d
              registry := (s.equation c).2.2.registry.insert c.id
                ⟨c, (s.equation c).2.1⟩ } : Solver α).settle budget).andThen
          fun s' _ => .ok s' (s.equation c).2.1 := by
  obtain ⟨x, d, hx, hd⟩ := pivotFor?_equation hs hc
  refine ⟨x, d, hx, hd, ?_⟩
  simp [Solver.register, hnew, Solver.enter, hx, Solver.define, hd]

/-- The outcome of adding a constraint which was not refused: its equation
could be solved at once, without a search and its artificial symbol; all
that can have gone wrong is work on the tableau afterwards; and the
constraint is registered in any case. -/
structure Accepts (s : Solver α) (c : Constraint α)
    (o : Outcome (Solver α) (Error α) Unit) : Prop where
  direct : ∃ x d, pivotFor? (s.equation c).1 (s.equation c).2.1 = some x
    ∧ (s.equation c).1.isolate? x = some d
  searchless : s.artificial? c = none
  failure : ∀ e, o.result = .error e → ∃ f, e = .failure f
  registered : o.state.registry.get? c.id
    = some ⟨c, (s.equation c).2.1⟩

variable [LawfulUnit α]

/-- Whatever is done with the symbols of a constraint once it has been
registered, it has been accepted. -/
private theorem Numbered.accepts_register (hs : s.Numbered)
    (hc : c.strength.isRequired = false) (hnew : s.contains c = false)
    (budget : ℕ) {g : Solver α → Footprint → Solver α}
    (hg : ∀ u f, (g u f).registry = u.registry) :
    s.Accepts c
      ((s.register budget c).andThen fun u f => .ok (g u f) ()) := by
  obtain ⟨x, d, hx, hd, hregister⟩ := hs.register_direct hc hnew budget
  have hartificial : s.artificial? c = none := by
    simp [artificial?, searchSymbol?, hnew, hx]
  rw [hregister]
  -- The search leaves the registry, whether or not it comes to an end.
  generalize hu : ({ (s.equation c).2.2 with
      tableau := (s.equation c).2.2.tableau.install x d
      registry := (s.equation c).2.2.registry.insert c.id
        ⟨c, (s.equation c).2.1⟩ } : Solver α) = u
  have hregistry : (u.settle budget).state.registry.get? c.id
      = some ⟨c, (s.equation c).2.1⟩ := by
    show u.registry.get? c.id = _
    rw [← hu]
    simp [Table.get?_insert]
  refine ⟨⟨x, d, hx, hd⟩, hartificial, fun e he => ?_, ?_⟩
  · rw [Outcome.error_andThen_ok_iff] at he
    have he := (Outcome.error_andThen_ok_iff (fun s' _ => s')
      (fun _ _ => (s.equation c).2.1)).1 he
    obtain ⟨f, -, hf⟩ := error_of_onTableau he
    exact ⟨f, hf⟩
  · unfold Outcome.andThen
    cases (u.settle budget).result with
    | ok _ =>
        show (g _ _).registry.get? c.id = _
        rw [hg]
        exact hregistry
    | error e => exact hregistry

/-- In every state that commands lead to, whether or not they came to an
end, a constraint that is not required and not registered is accepted, and
so is the constraint of a new edit variable. -/
theorem Traced.accepts (h : Traced s arts) (budget : ℕ) :
    (∀ c, c.strength.isRequired = false → s.contains c = false →
        s.Accepts c (s.add budget c))
      ∧ ∀ id v strength, s.isEdited v = false →
        strength.clip.isRequired = false →
        s.contains (EditConstraint.new id v strength).constraint = false →
        s.Accepts (EditConstraint.new id v strength).constraint
          (s.addEdit budget id v strength) := by
  refine ⟨fun c hc hnew => ?_, fun id v strength hv hc hnew => ?_⟩
  · exact h.numbered.accepts_register hc hnew budget (g := fun u _ => u)
      fun _ _ => rfl
  · have haccepts := h.numbered.accepts_register
      (c := (EditConstraint.new id v strength).constraint) hc hnew budget
      (g := fun u f =>
        { u with edits := u.edits.insert v ⟨.new id v strength, f⟩ })
      fun _ _ => rfl
    simpa only [addEdit, hv, hc, Bool.false_eq_true, if_false]
      using haccepts

/-- A constraint with a coefficient that is not a number. -/
def blurred : Constraint PartialRat :=
  .new 7 ⟨[⟨slider, .nan⟩, ⟨label, 1⟩], 3⟩ .greaterOrEqual .weak

/-- It is accepted beside a required one, and the slider may be edited
afterwards, with a suggestion that is not a number either. -/
theorem blurred_accepts :
    blurred.strength.isRequired = false
      ∧ ((Solver.empty.perform 5 (.add (.relate 0 (.ofVariable slider)
          .lessOrEqual (.ofConstant 2)))).state.add 5 blurred).state.contains
            blurred = true
      ∧ (((Solver.empty.perform 5 (.add blurred)).state.perform 5
          (.addEdit 8 slider .strong)).state.perform 5
            (.suggest slider .nan)).state.Accepts
          (EditConstraint.new 9 label .weak).constraint
          ((((Solver.empty.perform 5 (.add blurred)).state.perform 5
            (.addEdit 8 slider .strong)).state.perform 5
              (.suggest slider .nan)).state.addEdit 5 9 label .weak) := by
  have hbounded := Traced.empty.step 5 (.add (.relate 0 (.ofVariable slider)
    .lessOrEqual (.ofConstant (2 : PartialRat))))
  have hedited := ((Traced.empty.step 5 (.add blurred)).step 5
    (.addEdit 8 slider .strong)).step 5 (.suggest slider .nan)
  refine ⟨by decide +kernel, ?_, ?_⟩
  · have h := (Traced.accepts hbounded 5).1 blurred (by decide +kernel)
      (by decide +kernel)
    have hget := h.registered
    simp [contains, Table.contains, hget]
  · exact (Traced.accepts hedited 5).2 9 label .weak (by decide +kernel)
      (by decide +kernel) (by decide +kernel)

end Solver

end LinearConstraints
