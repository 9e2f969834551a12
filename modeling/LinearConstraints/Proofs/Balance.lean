/-
Balance: what the symbols of a constraint say about it.

The equation of a constraint makes the excess of its expression over its
target up with the gap between its two symbols (`Registration.Balanced`).
Under a proper valuation the symbols are restricted in just the way that
makes this the constraint again: a required one holds, and any other is
violated by no more than its errors. Conversely every excess that the
constraint allows is the gap of some restricted values, and then the
errors are the violation and no more.

Main statements: `holds_of_balanced`, `violation_le_errors` and
`balanced_of_parts`.
-/
import LinearConstraints.Constraint.Meaning
import LinearConstraints.Proofs.Exchange
import LinearConstraints.Solver.Basic

namespace LinearConstraints

-- ========================================================= expressions

/-- The value of an expression depends on the variables that it takes with
a coefficient. -/
theorem Expression.valueUnder_congr {e : Expression Rat}
    {value value' : Variable → Rat}
    (h : ∀ t ∈ e.terms, t.coefficient ≠ 0 → value t.var = value' t.var) :
    e.valueUnder value = e.valueUnder value' := by
  have key : ∀ (l : List (Term Rat)) (k : Rat),
      (∀ t ∈ l, t.coefficient ≠ 0 → value t.var = value' t.var) →
      l.foldl (fun sum t => sum + t.valueAt (value t.var)) k
        = l.foldl (fun sum t => sum + t.valueAt (value' t.var)) k := by
    intro l
    induction l with
    | nil => intro k _; rfl
    | cons t l ih =>
        intro k hl
        have ht : t.valueAt (value t.var) = t.valueAt (value' t.var) := by
          unfold Term.valueAt
          by_cases h0 : t.coefficient = 0
          · rw [h0, zero_mul, zero_mul]
          · rw [hl t (List.mem_cons_self ..) h0]
        rw [List.foldl_cons, List.foldl_cons, ht]
        exact ih _ fun t' ht' => hl t' (List.mem_cons_of_mem t ht')
  exact key e.terms e.constant h

-- ========================================================== footprints

namespace Footprint

variable (f : Footprint) (v : Symbol → Rat)

/-- The symbol is one of the two. -/
def Mentions (x : Symbol) : Prop := x = f.marker ∨ f.companion = some x

/-- The error symbol is one of the two. -/
theorem mentions_of_error? {f : Footprint} {x : Symbol}
    (h : f.error? = some x) : f.Mentions x ∧ x.kind = .error := by
  have hkind : ∀ {y : Symbol}, y.isError = true → y.kind = .error := by
    intro y hy
    unfold Symbol.isError at hy
    exact beq_iff_eq.1 hy
  unfold Footprint.error? at h
  split at h
  case isTrue hm =>
    obtain rfl := Option.some.inj h
    exact ⟨Or.inl rfl, hkind hm⟩
  · obtain ⟨hx, hk⟩ := Option.filter_eq_some_iff.1 h
    exact ⟨Or.inr hx, hkind hk⟩

/-- By how much the marker exceeds the companion. -/
def gap : Rat := v f.marker - f.companion.elim 0 v

/-- What the error symbols add up to. -/
def errors : Rat :=
  (if f.marker.isError then v f.marker else 0) + f.companion.elim 0 v

/-- The errors grow with the symbols. -/
theorem errors_le {f : Footprint} {v w : Symbol → Rat}
    (hle : ∀ x, f.Mentions x → v x ≤ w x) : f.errors v ≤ f.errors w := by
  unfold errors
  have hmarker : (if f.marker.isError = true then v f.marker else 0)
      ≤ if f.marker.isError = true then w f.marker else 0 := by
    split
    · exact hle f.marker (Or.inl rfl)
    · exact le_refl 0
  refine add_le_add hmarker ?_
  cases hc : f.companion with
  | none => exact le_refl 0
  | some y => exact hle y (Or.inr hc)

/-- The gap and the errors depend on the two symbols only. -/
theorem gap_congr {f : Footprint} {v w : Symbol → Rat}
    (h : ∀ x, f.Mentions x → v x = w x) : f.gap v = f.gap w := by
  unfold gap
  rw [h f.marker (Or.inl rfl)]
  cases hc : f.companion with
  | none => rfl
  | some y =>
      rw [Option.elim_some, Option.elim_some, h y (Or.inr hc)]

theorem gap_zero (f : Footprint) : f.gap (fun _ => 0) = 0 := by
  unfold gap
  cases f.companion <;> exact sub_zero 0

theorem errors_zero (f : Footprint) : f.errors (fun _ => 0) = 0 := by
  unfold errors
  rw [ite_self]
  cases f.companion <;> exact add_zero 0

theorem errors_congr {f : Footprint} {v w : Symbol → Rat}
    (h : ∀ x, f.Mentions x → v x = w x) : f.errors v = f.errors w :=
  le_antisymm (errors_le fun x hx => le_of_eq (h x hx))
    (errors_le fun x hx => le_of_eq (h x hx).symm)

/-- Other symbols play no part in the gap and the errors. -/
theorem gap_unit_of_not_mentions {f : Footprint} {x : Symbol}
    (h : ¬ f.Mentions x) : f.gap (Row.unit x) = 0 := by
  rw [gap_congr (w := fun _ => 0), gap_zero]
  intro y hy
  refine Row.unit_of_ne ?_
  intro heq
  subst heq
  exact h hy

theorem errors_unit_of_not_mentions {f : Footprint} {x : Symbol}
    (h : ¬ f.Mentions x) : f.errors (Row.unit x) = 0 := by
  rw [errors_congr (w := fun _ => 0), errors_zero]
  intro y hy
  refine Row.unit_of_ne ?_
  intro heq
  subst heq
  exact h hy

/-- The gap and the errors grow by as much per unit of a symbol wherever
it stands. -/
theorem gap_update (f : Footprint) (v : Symbol → Rat) (x : Symbol)
    (k : Rat) :
    f.gap (Function.update v x (v x + k))
      = f.gap v + k * f.gap (Row.unit x) := by
  unfold gap
  cases f.companion with
  | none =>
      simp only [Option.elim_none, Row.update_add]
      ring
  | some y =>
      simp only [Option.elim_some, Row.update_add]
      ring

theorem errors_update (f : Footprint) (v : Symbol → Rat) (x : Symbol)
    (k : Rat) :
    f.errors (Function.update v x (v x + k))
      = f.errors v + k * f.errors (Row.unit x) := by
  unfold errors
  split <;> cases f.companion with
  | none =>
      simp only [Option.elim_none, Row.update_add]
      ring
  | some y =>
      simp only [Option.elim_some, Row.update_add]
      ring

theorem gap_unit_marker {f : Footprint} (h : f.companion ≠ some f.marker) :
    f.gap (Row.unit f.marker) = 1 := by
  unfold gap
  rw [Row.unit_self]
  cases hc : f.companion with
  | none => exact sub_zero 1
  | some y =>
      rw [Option.elim_some, Row.unit_of_ne, sub_zero]
      intro heq
      subst heq
      exact h hc

theorem gap_unit_companion {f : Footprint} {y : Symbol}
    (hy : f.companion = some y) (h : f.companion ≠ some f.marker) :
    f.gap (Row.unit y) = -1 := by
  unfold gap
  rw [hy, Option.elim_some, Row.unit_self, Row.unit_of_ne, zero_sub]
  intro heq
  subst heq
  exact h hy

end Footprint

namespace Constraint

/-- The side of the equation on which the gap between the symbols
stands. -/
def sign (c : Constraint Rat) : Rat :=
  match c.relation with
  | .lessOrEqual => 1
  | .greaterOrEqual => -1
  | .equal => if c.strength.isRequired then 1 else -1

/-- The footprint has the symbols that the constraint calls for: a slack
or a dummy if it is required, two symbols that may make up for a violation
if it is not. -/
inductive Fits (c : Constraint Rat) (f : Footprint) : Prop where
  | dummy (relation : c.relation = .equal)
      (required : c.strength.isRequired = true)
      (marker : f.marker.kind = .dummy) (companion : f.companion = none)
  | slack (relation : c.relation ≠ .equal)
      (required : c.strength.isRequired = true)
      (marker : f.marker.kind = .slack) (companion : f.companion = none)
  | errors (y : Symbol) (relation : c.relation = .equal)
      (optional : c.strength.isRequired = false)
      (marker : f.marker.kind = .error) (companion : f.companion = some y)
      (kind : y.kind = .error)
  | slackened (y : Symbol) (relation : c.relation ≠ .equal)
      (optional : c.strength.isRequired = false)
      (marker : f.marker.kind = .slack) (companion : f.companion = some y)
      (kind : y.kind = .error)

theorem sign_eq_or (c : Constraint Rat) : c.sign = 1 ∨ c.sign = -1 := by
  unfold sign
  split
  · exact Or.inl rfl
  · exact Or.inr rfl
  · split
    · exact Or.inl rfl
    · exact Or.inr rfl

theorem sign_mul_self (c : Constraint Rat) : c.sign * c.sign = 1 := by
  rcases c.sign_eq_or with h | h <;> rw [h] <;> norm_num

namespace Fits

variable {c : Constraint Rat} {f : Footprint}

/-- A companion is an error. -/
theorem companion_kind (h : c.Fits f) {y : Symbol}
    (hy : f.companion = some y) : y.kind = .error := by
  cases h with
  | dummy _ _ _ companion => rw [hy] at companion; cases companion
  | slack _ _ _ companion => rw [hy] at companion; cases companion
  | errors y' _ _ _ companion kind =>
      obtain rfl := Option.some.inj (hy.symm.trans companion)
      exact kind
  | slackened y' _ _ _ companion kind =>
      obtain rfl := Option.some.inj (hy.symm.trans companion)
      exact kind

/-- A constraint has a companion exactly if it may be violated. -/
theorem exists_companion_iff (h : c.Fits f) :
    (∃ y, f.companion = some y) ↔ c.strength.isRequired = false := by
  cases h with
  | dummy _ required _ companion => simp [required, companion]
  | slack _ required _ companion => simp [required, companion]
  | errors y _ optional _ companion => simp [optional, companion]
  | slackened y _ optional _ companion => simp [optional, companion]

theorem not_external (h : c.Fits f) {x : Symbol} (hx : f.Mentions x) :
    x.isExternal = false := by
  rcases hx with rfl | hx
  · cases h with
    | dummy _ _ marker =>
        exact Symbol.isExternal_of_kind marker (by decide)
    | slack _ _ marker =>
        exact Symbol.isExternal_of_kind marker (by decide)
    | errors _ _ _ marker =>
        exact Symbol.isExternal_of_kind marker (by decide)
    | slackened _ _ _ marker =>
        exact Symbol.isExternal_of_kind marker (by decide)
  · exact Symbol.isExternal_of_kind (h.companion_kind hx) (by decide)

/-- The marker is a dummy exactly if the constraint is a required
equality. -/
theorem isDummy_marker_iff (h : c.Fits f) :
    f.marker.isDummy = true
      ↔ c.relation = .equal ∧ c.strength.isRequired = true := by
  cases h with
  | dummy relation required marker =>
      refine iff_of_true ?_ ⟨relation, required⟩
      unfold Symbol.isDummy
      rw [marker]
      rfl
  | slack relation _ marker =>
      rw [Symbol.isDummy_of_kind marker (by decide)]
      exact iff_of_false Bool.false_ne_true fun h => relation h.1
  | errors y _ optional marker =>
      rw [Symbol.isDummy_of_kind marker (by decide), optional]
      exact iff_of_false Bool.false_ne_true fun h => Bool.false_ne_true h.2
  | slackened y relation _ marker =>
      rw [Symbol.isDummy_of_kind marker (by decide)]
      exact iff_of_false Bool.false_ne_true fun h => relation h.1

/-- No other symbol of a constraint is a dummy. -/
theorem eq_marker_of_isDummy (h : c.Fits f) {x : Symbol}
    (hx : f.Mentions x) (hd : x.isDummy = true) : x = f.marker := by
  refine hx.resolve_right fun hx => ?_
  rw [Symbol.isDummy_of_kind (h.companion_kind hx) (by decide)] at hd
  cases hd

/-- A required constraint has no errors. -/
theorem errors_eq_zero (h : c.Fits f) (hr : c.strength.isRequired = true)
    (v : Symbol → Rat) : f.errors v = 0 := by
  unfold Footprint.errors Symbol.isError
  cases h with
  | dummy _ _ marker companion => rw [marker, companion]; exact add_zero 0
  | slack _ _ marker companion => rw [marker, companion]; exact add_zero 0
  | errors _ _ optional => rw [optional] at hr; cases hr
  | slackened _ _ optional => rw [optional] at hr; cases hr

end Fits

end Constraint

-- ========================================================== the balance

/-- The excess of the expression over its goal is made up by the gap
between the symbols. -/
def Registration.Balanced (g : Registration Rat)
    (value : Variable → Rat) (goal : Rat) (v : Symbol → Rat) : Prop :=
  g.constraint.expression.valueUnder value
    + g.constraint.sign * g.footprint.gap v = goal

namespace Constraint

variable {c : Constraint Rat} {f : Footprint} {v : Symbol → Rat}
  {excess : Rat}

/-- Where a required constraint is balanced, it holds exactly if its
marker has a value that its kind allows. -/
theorem holds_iff_of_balanced (h : c.Fits f)
    (hr : c.strength.isRequired = true)
    (hb : excess + c.sign * f.gap v = 0) :
    c.relation.Holds excess
      ↔ 0 ≤ v f.marker ∧ (c.relation = .equal → v f.marker = 0) := by
  unfold Constraint.sign Footprint.gap at hb
  cases h with
  | dummy relation _ _ companion =>
      rw [relation, companion, hr] at hb
      rw [relation]
      simp only [if_true, Option.elim_none] at hb
      show excess = 0 ↔ _
      constructor
      · intro he
        have hv : v f.marker = 0 := by linarith
        exact ⟨le_of_eq hv.symm, fun _ => hv⟩
      · intro hboth
        obtain ⟨-, hv⟩ := hboth
        have := hv rfl
        linarith
  | slack relation _ _ companion =>
      rw [companion] at hb
      simp only [Option.elim_none] at hb
      have himp : c.relation = .equal → v f.marker = 0 :=
        fun he => absurd he relation
      cases hrel : c.relation with
      | equal => exact absurd hrel relation
      | lessOrEqual =>
          rw [hrel] at hb
          show excess ≤ 0 ↔ _
          constructor
          · intro he
            exact ⟨by linarith, fun h => by cases h⟩
          · intro hboth
            obtain ⟨hv, -⟩ := hboth
            linarith
      | greaterOrEqual =>
          rw [hrel] at hb
          show 0 ≤ excess ↔ _
          constructor
          · intro he
            exact ⟨by linarith, fun h => by cases h⟩
          · intro hboth
            obtain ⟨hv, -⟩ := hboth
            linarith
  | errors _ _ optional => rw [optional] at hr; cases hr
  | slackened _ _ optional => rw [optional] at hr; cases hr

/-- A required constraint that is balanced by proper values holds. -/
theorem holds_of_balanced (h : c.Fits f)
    (hr : c.strength.isRequired = true) (hp : Tableau.Proper v)
    (hb : excess + c.sign * f.gap v = 0) : c.relation.Holds excess := by
  refine (holds_iff_of_balanced h hr hb).2
    ⟨hp.nonneg (h.not_external (Or.inl rfl)), fun he => ?_⟩
  exact hp.dummy (h.isDummy_marker_iff.2 ⟨he, hr⟩)

/-- Any other constraint that is balanced by proper values is violated by
no more than its errors. -/
theorem violation_le_errors (h : c.Fits f)
    (hr : c.strength.isRequired = false) (hp : Tableau.Proper v)
    (hb : excess + c.sign * f.gap v = 0) :
    c.relation.violation excess ≤ f.errors v := by
  have hm := hp.nonneg (h.not_external (Or.inl rfl))
  unfold Constraint.sign Footprint.gap at hb
  unfold Footprint.errors Symbol.isError
  cases h with
  | dummy _ required => rw [required] at hr; cases hr
  | slack _ required => rw [required] at hr; cases hr
  | errors y relation _ marker companion kind =>
      have hy := hp.nonneg
        (Symbol.isExternal_of_kind kind (by decide))
      rw [relation, companion, hr] at hb
      simp only [Bool.false_eq_true, if_false, Option.elim_some] at hb
      rw [relation, marker, companion]
      show (if excess < 0 then -excess else excess) ≤ v f.marker + v y
      split <;> linarith
  | slackened y relation _ marker companion kind =>
      have hy := hp.nonneg
        (Symbol.isExternal_of_kind kind (by decide))
      rw [companion] at hb
      simp only [Option.elim_some] at hb
      rw [marker, companion]
      show c.relation.violation excess ≤ 0 + v y
      cases hrel : c.relation with
      | equal => exact absurd hrel relation
      | lessOrEqual =>
          rw [hrel] at hb
          show (if 0 < excess then excess else 0) ≤ 0 + v y
          split <;> linarith
      | greaterOrEqual =>
          rw [hrel] at hb
          show (if excess < 0 then -excess else 0) ≤ 0 + v y
          split <;> linarith

/-- A required constraint that holds has something to spare, which its
marker may take. -/
private theorem spare_of_holds (h : c.Fits f)
    (hr : c.strength.isRequired = true) (hold : c.relation.Holds excess) :
    0 ≤ -(c.sign * excess) ∧ (f.marker.isDummy = true → excess = 0) := by
  unfold Constraint.sign
  cases h with
  | dummy relation =>
      rw [relation] at hold
      have he : excess = 0 := hold
      rw [he]
      exact ⟨by norm_num, fun _ => rfl⟩
  | slack relation _ marker =>
      have hnd : f.marker.isDummy = true → excess = 0 := by
        intro hd
        rw [Symbol.isDummy_of_kind marker (by decide)] at hd
        cases hd
      refine ⟨?_, hnd⟩
      cases hrel : c.relation with
      | equal => exact absurd hrel relation
      | lessOrEqual =>
          rw [hrel] at hold
          have he : excess ≤ 0 := hold
          dsimp only
          linarith
      | greaterOrEqual =>
          rw [hrel] at hold
          have he : 0 ≤ excess := hold
          dsimp only
          linarith
  | errors _ _ optional => rw [optional] at hr; cases hr
  | slackened _ _ optional => rw [optional] at hr; cases hr

/-- The violation of any other constraint is what its errors have to make
up for. -/
private theorem violation_eq_parts (h : c.Fits f)
    (hr : c.strength.isRequired = false) (excess : Rat) :
    c.relation.violation excess
      = (if f.marker.isError then max (-(c.sign * excess)) 0 else 0)
        + max (c.sign * excess) 0 := by
  have hneg : (if excess < 0 then -excess else 0) = max (-1 * excess) 0 := by
    split
    · rw [max_eq_left (by linarith)]
      ring
    · rw [max_eq_right (by linarith)]
  have hpos : (if 0 < excess then excess else 0) = max (1 * excess) 0 := by
    split
    · rw [max_eq_left (by linarith), one_mul]
    · rw [max_eq_right (by linarith)]
  unfold Constraint.sign Symbol.isError
  cases h with
  | dummy _ required => rw [required] at hr; cases hr
  | slack _ required => rw [required] at hr; cases hr
  | errors y relation _ marker =>
      rw [relation, marker, hr]
      simp only [Bool.false_eq_true, if_false]
      show (if excess < 0 then -excess else excess)
        = max (-(-1 * excess)) 0 + max (-1 * excess) 0
      split
      · rw [max_eq_right (by linarith), max_eq_left (by linarith)]
        ring
      · rw [max_eq_left (by linarith), max_eq_right (by linarith)]
        ring
  | slackened y relation _ marker =>
      rw [marker]
      cases hrel : c.relation with
      | equal => exact absurd hrel relation
      | lessOrEqual => exact hpos.trans (zero_add _).symm
      | greaterOrEqual => exact hneg.trans (zero_add _).symm

/-- Restricted values that balance a constraint: what it has to spare goes
to the marker and what it has too much to the companion. Then a constraint
that is not required has no more errors than its violation. -/
theorem balanced_of_parts (h : c.Fits f)
    (hold : c.strength.isRequired = true → c.relation.Holds excess)
    (hm : v f.marker = max (-(c.sign * excess)) 0)
    (hy : ∀ y, f.companion = some y → v y = max (c.sign * excess) 0) :
    excess + c.sign * f.gap v = 0
      ∧ (f.marker.isDummy = true → v f.marker = 0)
      ∧ (c.strength.isRequired = false →
          f.errors v = c.relation.violation excess) := by
  have hgap : f.gap v = -(c.sign * excess) := by
    unfold Footprint.gap
    rw [hm]
    cases hc : f.companion with
    | none =>
        -- there is no companion only where there is something to spare
        have hr : c.strength.isRequired = true := by
          cases h with
          | dummy _ required => exact required
          | slack _ required => exact required
          | errors y _ _ _ companion => rw [hc] at companion; cases companion
          | slackened y _ _ _ companion =>
              rw [hc] at companion
              cases companion
        rw [max_eq_left (spare_of_holds h hr (hold hr)).1]
        exact sub_zero _
    | some y =>
        rw [Option.elim_some, hy y hc]
        rcases le_total 0 (c.sign * excess) with hs | hs
        · rw [max_eq_right (by linarith), max_eq_left hs, zero_sub]
        · rw [max_eq_left (by linarith), max_eq_right hs, sub_zero]
  refine ⟨?_, fun hd => ?_, fun hr => ?_⟩
  · have hsq := c.sign_mul_self
    rw [hgap, mul_neg, ← mul_assoc, hsq, one_mul, add_neg_cancel]
  · have hr := (h.isDummy_marker_iff.1 hd).2
    rw [hm, (spare_of_holds h hr (hold hr)).2 hd, mul_zero, neg_zero,
      max_self]
  · rw [violation_eq_parts h hr]
    unfold Footprint.errors
    rw [hm]
    cases h with
    | dummy _ required => rw [required] at hr; cases hr
    | slack _ required => rw [required] at hr; cases hr
    | errors y _ _ _ companion =>
        rw [companion, Option.elim_some, hy y companion]
    | slackened y _ _ _ companion =>
        rw [companion, Option.elim_some, hy y companion]

end Constraint

end LinearConstraints
